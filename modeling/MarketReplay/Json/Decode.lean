import MarketReplay.Json
import MarketReplay.Text.Quoted
import MarketReplay.Width

/-!
# Reading typed values from documents

A choice is written as the name of an alternative, or as an object whose only key is that name; an
alternative without a payload then carries null. A record is written as an object, or as an array
of its fields in order. A document that is refused is refused for the first thing that is met: in
an object the fields stand in the order of their keys, and those that are missing come after them.
-/

namespace MarketReplay

/-- Why a document has no value of a type. -/
inductive DecodeError where
  | invalidType (found expected : String)
  | invalidValue (found expected : String)
  | invalidLength (length : Nat) (expected : String)
  | unknownField (name : String) (names : List String)
  | unknownVariant (name : String) (names : List String)
  | missingField (name : String)
  | unreadable (reason : String)
  deriving DecidableEq

namespace DecodeError

/-- A name as it stands in the text of an error. -/
def named (name : String) : String := "`" ++ name ++ "`"

/-- The names of which one is expected. -/
def oneOf : List String → String
  | [] => ""
  | [a] => named a
  | [a, b] => named a ++ " or " ++ named b
  | names => "one of " ++ ", ".intercalate (names.map named)

/-- The text of the error. -/
def message : DecodeError → String
  | invalidType found expected => "invalid type: " ++ found ++ ", expected " ++ expected
  | invalidValue found expected => "invalid value: " ++ found ++ ", expected " ++ expected
  | invalidLength length expected =>
    "invalid length " ++ toString length ++ ", expected " ++ expected
  | unknownField name names => "unknown field " ++ named name ++ ", expected " ++ oneOf names
  | unknownVariant name names => "unknown variant " ++ named name ++ ", expected " ++ oneOf names
  | missingField name => "missing field " ++ named name
  | unreadable reason => reason

end DecodeError

/-- A reader of values of a type. -/
abbrev Decoder (α : Type) := Json → Except DecodeError α

namespace Json

/-- A string. -/
def asString? : Json → Option String
  | string s => some s
  | _ => none

/-- A truth value. -/
def asBool? : Json → Option Bool
  | bool b => some b
  | _ => none

/-- What an error tells of a document. -/
def sketch : Json → String
  | null => "null"
  | bool b => "boolean " ++ DecodeError.named (if b then "true" else "false")
  | number (.integer n) => "integer " ++ DecodeError.named (toString n)
  | number (.real x) => "floating point " ++ DecodeError.named x.text
  | string s => "string " ++ Text.quoted s
  | array _ => "sequence"
  | object _ => "map"

end Json

namespace Decoder

/-- Refuses a document because of its kind. -/
def mistyped {α : Type} (expected : String) (j : Json) : Except DecodeError α :=
  .error (.invalidType j.sketch expected)

/-- A string. -/
def text : Decoder String
  | .string s => .ok s
  | j => mistyped "a string" j

/-- A truth value. -/
def truth : Decoder Bool
  | .bool b => .ok b
  | j => mistyped "a boolean" j

/-- An integer between two bounds, those of a type of the given name. -/
def intIn (low high : Int) (type : String) : Decoder Int
  | j@(.number (.integer n)) =>
    if low ≤ n && n ≤ high then .ok n else .error (.invalidValue j.sketch type)
  | j => mistyped type j

/-- A 64-bit integer. -/
def int64 : Decoder Int := intIn minInt64 maxInt64 "i64"

/-- A natural number below `2 ^ bits`. -/
def natBits (bits : Nat) : Decoder Nat := fun j =>
  (intIn 0 (Nat.pow 2 bits - 1 : Nat) ("u" ++ toString bits) j).map Int.toNat

/-- Every item of an array. -/
def list {α : Type} (item : Decoder α) : Decoder (List α)
  | .array items => items.mapM item
  | j => mistyped "a sequence" j

/-- A value that may be null. -/
def option {α : Type} (value : Decoder α) : Decoder (Option α)
  | .null => .ok none
  | j => (value j).map some

/-! ### Choices -/

/-- The name of an alternative and its payload, if it carries one. -/
def alternative : Decoder (String × Option Json)
  | .string name => .ok (name, none)
  | .object [(name, payload)] => .ok (name, some payload)
  | j@(.object _) => .error (.invalidValue j.sketch "map with a single key")
  | j => mistyped "string or map" j

/-- An alternative without payload carries nothing or null. -/
def noPayload : Option Json → Except DecodeError Unit
  | none => .ok ()
  | some .null => .ok ()
  | some j => mistyped "unit" j

/-- A choice among alternatives without payload. -/
def choice {α : Type} (alternatives : List (String × α)) : Decoder α := fun j => do
  let (name, payload) ← alternative j
  match alternatives.lookup name with
  | none => .error (.unknownVariant name (alternatives.map Prod.fst))
  | some value => do
    noPayload payload
    return value

end Decoder

/-! ### Records -/

/-- The name of a record and of its fields, in order; a closed record admits no other keys. -/
structure RecordType where
  title : String
  names : List String
  closed : Bool

/-- A document of a record: its fields, and whether they were written as an array. -/
structure Record where
  type : RecordType
  fields : List (String × Json)
  listed : Bool

/-- What was read of a record: values, or what is refused first, with the place where it stands. -/
def Gathered (α : Type) : Type := Except (Nat × DecodeError) α

instance : Applicative Gathered where
  pure := Except.ok
  seq function argument :=
    match function, argument () with
    | .ok f, .ok a => .ok (f a)
    | .ok _, .error e => .error e
    | .error e, .ok _ => .error e
    | .error e, .error e' => .error (if e'.1 < e.1 then e' else e)

namespace RecordType

/-- A record with the number of its fields. -/
def sized (t : RecordType) : String :=
  "struct " ++ t.title ++ " with " ++ toString t.names.length ++
    (if t.names.length = 1 then " element" else " elements")

/-- The document of a record. -/
def record (t : RecordType) : Decoder Record
  | .object fields => .ok ⟨t, fields, false⟩
  | .array items => .ok ⟨t, t.names.zip items, true⟩
  | j => Decoder.mistyped ("struct " ++ t.title) j

/-- Refuses what a document has beside the fields: other keys of an object, if the record is closed,
and more items of an array. -/
def excess (t : RecordType) : Json → Gathered Unit
  | .object fields =>
    let known := fun f : String × Json => t.names.contains f.1
    match fields.find? fun f => t.closed && !known f with
    | none => pure ()
    | some f => .error ((fields.takeWhile known).length, .unknownField f.1 t.names)
  | .array items =>
    if items.length ≤ t.names.length then pure ()
    else .error (t.names.length, .invalidLength items.length "fewer elements in array")
  | _ => pure ()

/-- The value of a record, of which the fields are gathered by `gather`. -/
def decode {α : Type} (t : RecordType) (gather : Record → Gathered α) : Decoder α := fun j => do
  let r ← t.record j
  Except.mapError Prod.snd (t.excess j *> gather r)

end RecordType

namespace Record

/-- The place of a field; missing ones come after all others. -/
def place (r : Record) (name : String) : Nat := (r.fields.map Prod.fst).idxOf name

/-- Refuses a record because a field is missing. -/
def missing {α : Type} (r : Record) (name : String) : Gathered α :=
  .error (r.place name,
    if r.listed then .invalidLength (r.type.names.idxOf name) r.type.sized
    else .missingField name)

/-- A field that is there. -/
def value {α : Type} (r : Record) (name : String) (read : Decoder α) (j : Json) : Gathered α :=
  (read j).mapError fun e => (r.place name, e)

/-- A field that must be there. -/
def required {α : Type} (r : Record) (name : String) (read : Decoder α) : Gathered α :=
  match Json.field? name r.fields with
  | none => r.missing name
  | some j => r.value name read j

/-- A field that has a value of its own when it is not there. -/
def withDefault {α : Type} (r : Record) (name : String) (absent : α) (read : Decoder α) :
    Gathered α :=
  match Json.field? name r.fields with
  | none => pure absent
  | some j => r.value name read j

/-- A field that may be null, or missing from an object. -/
def optional {α : Type} (r : Record) (name : String) (read : Decoder α) : Gathered (Option α) :=
  match Json.field? name r.fields with
  | none => if r.listed then r.missing name else pure none
  | some j => r.value name read.option j

end Record

end MarketReplay
