import MarketReplay.Json
import MarketReplay.Width
import MarketReplay.Yaml.Node

/-!
# Values

The values of a configuration. A plain scalar is null, a truth value or a number if it is written
like one, and a text otherwise; a tag that begins with an exclamation mark stays with its value. No
two keys of a mapping are the same.
-/

namespace MarketReplay

/-- A value of a configuration. -/
inductive Yaml where
  | null
  | bool (value : Bool)
  | number (value : JsonNumber)
  | string (value : String)
  | sequence (items : List Yaml)
  | mapping (entries : List (Yaml × Yaml))
  | tagged (tag : String) (value : Yaml)

namespace Yaml

/-- Whether two numbers are the same; an integer never is a binary fraction. -/
def sameNumber : JsonNumber → JsonNumber → Bool
  | .integer m, .integer n => m == n
  | .real x, .real y => x.same y
  | _, _ => false

mutual

/-- Whether two values are the same; the order of entries does not count. -/
def same : Yaml → Yaml → Bool
  | null, null => true
  | bool a, bool b => a == b
  | number a, number b => sameNumber a b
  | string a, string b => a == b
  | sequence a, sequence b => sameItems a b
  | mapping a, mapping b => a.length == b.length && sameEntries a b
  | tagged s a, tagged t b => s == t && same a b
  | _, _ => false

/-- Whether two lists of values are the same. -/
def sameItems : List Yaml → List Yaml → Bool
  | [], [] => true
  | a :: as, b :: bs => same a b && sameItems as bs
  | _, _ => false

/-- Whether each entry of the first list is in the second one. -/
def sameEntries : List (Yaml × Yaml) → List (Yaml × Yaml) → Bool
  | [], _ => true
  | (k, v) :: rest, b => (b.any fun e => same k e.1 && same v e.2) && sameEntries rest b

end

/-- A null. -/
def isNullText (s : String) : Bool := s == "null" || s == "Null" || s == "NULL" || s == "~"

/-- A truth value. -/
def boolText? (s : String) : Option Bool :=
  if s == "true" || s == "True" || s == "TRUE" then some true
  else if s == "false" || s == "False" || s == "FALSE" then some false
  else none

/-- Whether the text has more than one digit, a zero before the others; such a text is no number. -/
def hasLeadingZero (cs : List Char) : Bool :=
  let digits := match cs with
    | '-' :: rest => rest
    | '+' :: rest => rest
    | rest => rest
  1 < digits.length && digits.head? == some '0' && digits.all Char.isDigit

/-- The number that digits stand for, their base marked by letters before them. -/
def markedNumber? : List Char → Option Nat
  | '0' :: 'x' :: digits => Text.baseNumber? 16 digits
  | '0' :: 'o' :: digits => Text.baseNumber? 8 digits
  | '0' :: 'b' :: digits => Text.baseNumber? 2 digits
  | _ => none

/-- An integer without sign, of a given number of bits. -/
def unsigned? (bits : Nat) (cs : List Char) : Option Int :=
  let body := match cs with
    | '+' :: rest => rest
    | rest => rest
  let fits := fun n : Nat => n < Nat.pow 2 bits
  match (markedNumber? body).filter fits with
  | some n => some n
  | none =>
    if hasLeadingZero cs then none
    else ((Text.baseNumber? 10 body).filter fits).map Int.ofNat

/-- An integer with a minus sign, of a given number of bits. -/
def negative? (bits : Nat) (cs : List Char) : Option Int :=
  match cs with
  | '-' :: body =>
    let fits := fun n : Nat => n ≤ Nat.pow 2 (bits - 1)
    match (markedNumber? body).filter fits with
    | some n => some (-(n : Int))
    | none =>
      if hasLeadingZero cs then none
      else ((Text.baseNumber? 10 body).filter fits).map fun n => -(n : Int)
  | _ => none

/-- An integer of 64 bits; `some none` is one of more bits, up to 128. -/
def integer? (cs : List Char) : Option (Option Int) :=
  match unsigned? 64 cs with
  | some n => some (some n)
  | none =>
    match negative? 64 cs with
    | some n => some (some n)
    | none =>
      if (unsigned? 128 cs).isSome || (negative? 128 cs).isSome then some none else none

/-- A binary fraction. -/
def real? (cs : List Char) : Option Binary64 :=
  let body := match cs with
    | '+' :: rest => rest
    | rest => rest
  let text := String.ofList cs
  let bodyText := String.ofList body
  let doubled := cs.length != body.length && (body.head? == some '+' || body.head? == some '-')
  if doubled then none
  else if bodyText == ".inf" || bodyText == ".Inf" || bodyText == ".INF" then some .infinity
  else if text == "-.inf" || text == "-.Inf" || text == "-.INF" then some .negInfinity
  else if text == ".nan" || text == ".NaN" || text == ".NAN" then some .nan
  else (Binary64.parse? body).filter Binary64.isFinite

/-- The value of a plain scalar. -/
def plainValue? (s : String) : Option Yaml :=
  if s.isEmpty || isNullText s then some null
  else
    match boolText? s with
    | some b => some (bool b)
    | none =>
      match integer? s.toList with
      | some n => n.map fun n => number (.integer n)
      | none =>
        if hasLeadingZero s.toList then some (string s)
        else
          match real? s.toList with
          | some x => some (number (.real x))
          | none => some (string s)

/-- The value of a scalar without a tag of its own. -/
def untaggedValue? (text : String) (plain : Bool) : Option Yaml :=
  if plain then plainValue? text else some (string text)

/-- The name of a tag that stays with its value: what follows the exclamation mark, or the mark
itself where nothing does. -/
def tagName? (tag : String) : Option String :=
  match tag.toList with
  | ['!'] => some "!"
  | '!' :: name => some (String.ofList name)
  | _ => none

/-- The value of a scalar; the tags of the basic types ask for a text of that type. -/
def scalarValue? (tag : Option String) (text : String) (plain : Bool) : Option Yaml :=
  match tag with
  | none => untaggedValue? text plain
  | some "tag:yaml.org,2002:bool" => (boolText? text).map bool
  | some "tag:yaml.org,2002:int" =>
    (integer? text.toList).bind fun n => n.map fun n => number (.integer n)
  | some "tag:yaml.org,2002:float" => (real? text.toList).map fun x => number (.real x)
  | some "tag:yaml.org,2002:null" => if isNullText text then some null else none
  | some tag =>
    match tagName? tag with
    | some name => (untaggedValue? text plain).map (tagged name)
    | none => some (string text)

/-- A collection under a tag. -/
def underTag (tag : Option String) (value : Yaml) : Yaml :=
  match tag.bind tagName? with
  | some name => tagged name value
  | none => value

/-- How deep collections may nest. -/
def depthLimit : Nat := 128

/-- The node that a node stands for, in a document; the state counts the aliases followed, at most
a hundred times the events of the document. -/
def follow (d : Document) (node : Node) : StateT Nat Option Node := do
  match node with
  | .alias n =>
    let jumps := (← get) + 1
    set jumps
    if 100 * d.size < jumps then failure
    else StateT.lift (d.anchored.lookup n)
  | node => return node

/-- The value of a node, in a document; collections in it nest at most `depth` deep. -/
def nodeValue (d : Document) : (depth : Nat) → Node → StateT Nat Option Yaml
  | 0, node => do
    match ← follow d node with
    | .scalar tag text plain => StateT.lift (scalarValue? tag text plain)
    | _ => failure
  | depth + 1, node => do
    match ← follow d node with
    | .scalar tag text plain => StateT.lift (scalarValue? tag text plain)
    | .sequence tag items => return underTag tag (sequence (← items.mapM (nodeValue d depth)))
    | .mapping tag entries =>
      let read := fun (acc : List (Yaml × Yaml)) (entry : Node × Node) => do
        let key ← nodeValue d depth entry.1
        if acc.any fun e => same e.1 key then failure
        else return (key, ← nodeValue d depth entry.2) :: acc
      return underTag tag (mapping (← entries.foldlM read []).reverse)
    | .alias _ => failure

/-- The value of a document. -/
def ofDocument? (d : Document) : Option Yaml := ((nodeValue d depthLimit d.root).run 0).map Prod.fst

/-- The value of a text. -/
def parse? (text : String) : Option Yaml := do
  ofDocument? (← Document.ofEvents? (← Event.ofTokens? (← Token.ofText? text)))

/-- The key of an object that a value can be. -/
def keyText? : Yaml → Option String
  | bool b => some (if b then "true" else "false")
  | number (.integer n) => some (toString n)
  | number (.real x) => if x.isFinite then some x.text else none
  | string s => some s
  | _ => none

mutual

/-- The document of a value, if all of its keys can be keys of objects. A number that is not finite
is null, and a tag is the only key of an object that holds its value. -/
def toJson? : Yaml → Option Json
  | null => some .null
  | bool b => some (.bool b)
  | number (.integer n) => some (.int n)
  | number (.real x) => some (if x.isFinite then .number (.real x) else .null)
  | string s => some (.string s)
  | sequence items => (itemsToJson? items).map .array
  | mapping entries => (entriesToJson? entries).map .ofFields
  | tagged tag value => (toJson? value).map fun j => .object [("!" ++ tag, j)]

/-- The documents of items. -/
def itemsToJson? : List Yaml → Option (List Json)
  | [] => some []
  | v :: rest =>
    match toJson? v, itemsToJson? rest with
    | some j, some more => some (j :: more)
    | _, _ => none

/-- The fields of entries. -/
def entriesToJson? : List (Yaml × Yaml) → Option (List (String × Json))
  | [] => some []
  | (k, v) :: rest =>
    match keyText? k, toJson? v, entriesToJson? rest with
    | some key, some j, some more => some ((key, j) :: more)
    | _, _, _ => none

end

end Yaml

end MarketReplay
