import MarketReplay.Json.Choices

/-!
# Reading domain values with reasons

Readers of documents that tell why a document is refused: its shape is wrong, or a symbol in it is.
A field that is null counts as missing.
-/

namespace MarketReplay

/-- Why a document is refused. -/
inductive DocumentError where
  | symbol (error : SymbolError)
  | shape (expected : String)
  deriving DecidableEq

/-- A value read from a document, or why there is none. -/
abbrev Reading := Except DocumentError

namespace Json

/-- A field of an object is smaller than its fields. -/
theorem sizeOf_field?_lt {key : String} {fields : List (String × Json)} {value : Json}
    (h : field? key fields = some value) : sizeOf value < sizeOf fields := by
  induction fields with
  | nil => simp [field?] at h
  | cons f rest ih =>
    obtain ⟨k, v⟩ := f
    by_cases hk : k = key
    · simp [field?, hk] at h
      subst h
      simp
      omega
    · simp [field?, hk] at h
      have := ih h
      simp
      omega

/-- The value of a key, null where there is none. -/
def member (key : String) : Json → Json
  | object fields => (field? key fields).getD null
  | _ => null

/-- The value of a key is no greater than the document. -/
theorem sizeOf_member_le (key : String) (j : Json) : sizeOf (j.member key) ≤ sizeOf j := by
  match j with
  | object fields =>
    cases h : field? key fields with
    | none => simp [member, h]
    | some v =>
      have := sizeOf_field?_lt h
      simp [member, h]
      omega
  | null => simp [member]
  | bool _ => simp [member]
  | number _ => simp [member]
  | string _ => simp [member]
  | array _ => simp [member]

/-- The value of a key, read by `reader`. -/
def read {α : Type} (key : String) (reader : Json → Reading α) (j : Json) : Reading α :=
  reader (j.member key)

/-- The value of a key that may be missing, read by `reader`. -/
def readOption {α : Type} (key : String) (reader : Json → Reading α) (j : Json) :
    Reading (Option α) :=
  match j.member key with
  | null => .ok none
  | value => (reader value).map some

/-- The value of a key read by `reader`, or the value that stands for a missing one. -/
def readOr {α : Type} (key : String) (absent : α) (reader : Json → Reading α) (j : Json) :
    Reading α :=
  (j.readOption key reader).map fun value => value.getD absent

end Json

namespace Reading

/-- What a reader without reasons read, or that the shape is wrong. -/
def expect {α : Type} (expected : String) (value : Option α) : Reading α :=
  match value with
  | some a => .ok a
  | none => .error (.shape expected)

/-- What a decoder read, or that the shape is wrong. -/
def decode {α : Type} (expected : String) (decoder : Decoder α) (j : Json) : Reading α :=
  expect expected (decoder j).toOption

/-- A text. -/
def text (j : Json) : Reading String := expect "text" j.asString?

/-- A truth value. -/
def bool (j : Json) : Reading Bool := expect "truth value" j.asBool?

/-- An integer. -/
def int : Json → Reading Int
  | .number (.integer n) => .ok n
  | _ => .error (.shape "integer")

/-- A natural number. -/
def nat (j : Json) : Reading Nat := (int j).map Int.toNat

/-- A date. -/
def date (j : Json) : Reading Date := decode "date" Decoder.date j

/-- A moment, a blank between date and time. -/
def moment (j : Json) : Reading DateTime := expect "moment" (j.asString?.bind DateTime.parse?)

/-- A choice of a table of alternatives. -/
def choice {α : Type} (alternatives : List (String × α)) (j : Json) : Reading α :=
  decode "choice" (Decoder.choice alternatives) j

/-- A release policy. -/
def release (j : Json) : Reading UnderlyingRelease := decode "release policy" Decoder.release j

/-- The items of a list; null is the empty list. -/
def list {α : Type} (reader : Json → Reading α) : Json → Reading (List α)
  | .null => .ok []
  | .array items => items.mapM reader
  | _ => .error (.shape "list")

/-- A symbol: its written form, the unchecked ticker of an equity under `raw`, or the terms of a
contract on an underlying. -/
def symbol (j : Json) : Reading Symbol :=
  match j with
  | .string s => (Symbol.parse s).mapError .symbol
  | .object fields =>
    match _hu : Json.field? "underlying" fields with
    | none => ((Json.object fields).read "raw" text).map .equity
    | some u => do
      let underlying ← symbol u
      let terms := Json.object fields
      let expiry ← terms.read "expiry" date
      let strike ← terms.read "strike" int
      let right ← terms.readOr "right" .call (choice Json.optionRights)
      let style ← terms.readOr "style" .american (choice Json.optionStyles)
      (Symbol.optionOn underlying expiry strike right style).mapError .symbol
  | _ => .error (.shape "symbol")
termination_by sizeOf j
decreasing_by
  have := Json.sizeOf_field?_lt _hu
  simp
  omega

/-- An instant: the moment `at` and the resolution `res`. -/
def instant (j : Json) : Reading Instant := do
  return ⟨← j.read "at" moment, ← j.readOr "res" .minute (choice Json.resolutions)⟩

end Reading

end MarketReplay
