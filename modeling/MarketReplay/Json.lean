import MarketReplay.Number.Binary64
import MarketReplay.Text.Quoted
import MarketReplay.Text.Padded

/-!
# Documents

A `Json` value, and its two printed forms: compact, which is canonical because the fields of an
object are kept in the order of their keys, and indented.
-/

namespace MarketReplay

/-- A number: an integer or a binary fraction. -/
inductive JsonNumber where
  | integer (value : Int)
  | real (value : Binary64)
  deriving DecidableEq, Repr

/-- A document. -/
inductive Json where
  | null
  | bool (value : Bool)
  | number (value : JsonNumber)
  | string (value : String)
  | array (items : List Json)
  | object (fields : List (String × Json))
  deriving Repr

namespace Json

instance : Inhabited Json := ⟨null⟩

/-- The fields with one more, in the order of keys; an old field of the key is replaced. -/
def putField (key : String) (value : Json) : List (String × Json) → List (String × Json)
  | [] => [(key, value)]
  | (k, v) :: rest =>
    match compare key k with
    | .lt => (key, value) :: (k, v) :: rest
    | .eq => (key, value) :: rest
    | .gt => (k, v) :: putField key value rest

/-- The object of a list of fields, the last of a key winning. -/
def ofFields (fields : List (String × Json)) : Json :=
  object (fields.foldl (fun acc f => putField f.1 f.2 acc) [])

/-- The value of a key. -/
def field? (key : String) : List (String × Json) → Option Json
  | [] => none
  | (k, v) :: rest => if k = key then some v else field? key rest

/-- An integer. -/
def int (n : Int) : Json := number (.integer n)

/-- One character of a string. -/
def escapeChar (c : Char) : String :=
  match c with
  | '"' => "\\\""
  | '\\' => "\\\\"
  | '\x08' => "\\b"
  | '\x0c' => "\\f"
  | '\n' => "\\n"
  | '\r' => "\\r"
  | '\t' => "\\t"
  | c => if c.toNat < 0x20 then "\\u" ++ Text.padLeft 4 '0' (Text.hexDigits c.toNat) else c.toString

/-- A string between quotes. -/
def stringText (s : String) : String := "\"" ++ String.join (s.toList.map escapeChar) ++ "\""

/-- A number; a value that is not finite has no number and is written as null. -/
def numberText : JsonNumber → String
  | .integer n => toString n
  | .real x => if x.isFinite then x.text else "null"

mutual

/-- The compact form. -/
def compact : Json → String
  | null => "null"
  | bool b => if b then "true" else "false"
  | number n => numberText n
  | string s => stringText s
  | array items => "[" ++ ",".intercalate (compactItems items) ++ "]"
  | object fields => "\x7b" ++ ",".intercalate (compactFields fields) ++ "\x7d"

/-- The items of an array, each in compact form. -/
def compactItems : List Json → List String
  | [] => []
  | j :: rest => compact j :: compactItems rest

/-- The fields of an object, each in compact form. -/
def compactFields : List (String × Json) → List String
  | [] => []
  | (k, j) :: rest => (stringText k ++ ":" ++ compact j) :: compactFields rest

end

/-- Blanks of an indentation level. -/
def indentation (level : Nat) : String := String.ofList (List.replicate (2 * level) ' ')

/-- Parts on lines of their own between brackets. -/
def block (level : Nat) (opening closing : String) (parts : List String) : String :=
  if parts.isEmpty then opening ++ closing
  else
    let inner := "\n" ++ indentation (level + 1)
    opening ++ inner ++ ("," ++ inner).intercalate parts ++ "\n" ++ indentation level ++ closing

mutual

/-- The indented form at a level. -/
def indented (level : Nat) : Json → String
  | null => "null"
  | bool b => if b then "true" else "false"
  | number n => numberText n
  | string s => stringText s
  | array items => block level "[" "]" (indentedItems (level + 1) items)
  | object fields => block level "\x7b" "\x7d" (indentedFields (level + 1) fields)

/-- The items of an array, each in indented form. -/
def indentedItems (level : Nat) : List Json → List String
  | [] => []
  | j :: rest => indented level j :: indentedItems level rest

/-- The fields of an object, each in indented form. -/
def indentedFields (level : Nat) : List (String × Json) → List String
  | [] => []
  | (k, j) :: rest => (stringText k ++ ": " ++ indented level j) :: indentedFields level rest

end

/-- The indented form. -/
def pretty (j : Json) : String := indented 0 j

end Json

end MarketReplay
