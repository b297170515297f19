import MarketReplay.Json
import MarketReplay.Text.Blank
import MarketReplay.Text.Digits
import MarketReplay.Text.Split

/-!
# Pointers into documents

A pointer is a path of written tokens: a slash before each, and `~1` and `~0` in a token for the
slash and the tilde. The pointer without tokens, written as a slash alone, is the whole document.
The leaves of a document are its values that are neither objects nor arrays.
-/

namespace MarketReplay

/-- The written tokens of a path into a document. -/
structure JsonPointer where
  tokens : List String
  deriving DecidableEq, Repr

namespace JsonPointer

/-- The written form of a token. -/
def escapeToken (s : String) : String :=
  String.join (s.toList.map fun c => if c = '~' then "~0" else if c = '/' then "~1" else c.toString)

/-- The characters that stand for a written token: first `~1` is a slash. -/
def unescapeSlashes : List Char → List Char
  | '~' :: '1' :: rest => '/' :: unescapeSlashes rest
  | c :: rest => c :: unescapeSlashes rest
  | [] => []

/-- The characters that stand for a written token: then `~0` is a tilde. -/
def unescapeTildes : List Char → List Char
  | '~' :: '0' :: rest => '~' :: unescapeTildes rest
  | c :: rest => c :: unescapeTildes rest
  | [] => []

/-- The key that a written token stands for. -/
def unescapeToken (s : String) : String :=
  String.ofList (unescapeTildes (unescapeSlashes s.toList))

/-- The text of a pointer. -/
def text (p : JsonPointer) : String :=
  if p.tokens.isEmpty then "/" else String.join (p.tokens.map ("/" ++ ·))

/-- The pointer of a text: blanks around it, a missing slash at its start and slashes at its end
do not count. -/
def ofText (s : String) : JsonPointer :=
  let parts := Text.split '/' (Text.trim s.toList)
  let parts := if (parts.head?.getD []).isEmpty then parts.drop 1 else parts
  ⟨((parts.reverse.dropWhile List.isEmpty).reverse).map String.ofList⟩

/-- Whether a pointer reaches into what the other one points to: its tokens begin the other's. -/
def covers (p q : JsonPointer) : Bool := p.tokens.isPrefixOf q.tokens

/-- The pointer with a token before it. -/
def under (token : String) (p : JsonPointer) : JsonPointer := ⟨token :: p.tokens⟩

end JsonPointer

namespace Json

/-- The place in an array that a token stands for: decimal digits without a zero before others. -/
def indexOf? (token : String) : Option Nat :=
  match token.toList with
  | ['0'] => some 0
  | '0' :: _ => none
  | digits => Text.baseNumber? 10 digits

/-- The value of a key of an object, or at a place of an array. -/
def child? (token : String) : Json → Option Json
  | object fields => field? token fields
  | array items => (indexOf? token).bind fun i => items[i]?
  | _ => none

/-- The value at the end of a path. -/
def lookup : (tokens : List String) → Json → Option Json
  | [], j => some j
  | token :: rest, j => (child? (JsonPointer.unescapeToken token) j).bind (lookup rest)

/-- The value that a pointer points to. -/
def at? (p : JsonPointer) (j : Json) : Option Json := lookup p.tokens j

mutual

/-- The pointers of the leaves, in the order of the document. -/
def leaves : Json → List JsonPointer
  | array items => leavesFrom 0 items
  | object fields => leavesOfFields fields
  | _ => [⟨[]⟩]

/-- The pointers of the leaves of items, the first of which is at a place. -/
def leavesFrom (index : Nat) : List Json → List JsonPointer
  | [] => []
  | j :: rest => (leaves j).map (.under (toString index)) ++ leavesFrom (index + 1) rest

/-- The pointers of the leaves of fields. -/
def leavesOfFields : List (String × Json) → List JsonPointer
  | [] => []
  | (key, j) :: rest =>
    (leaves j).map (.under (JsonPointer.escapeToken key)) ++ leavesOfFields rest

end

end Json

end MarketReplay
