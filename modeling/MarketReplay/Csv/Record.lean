/-!
# Records of comma-separated text

A record ends at a line end, fields are parted by commas. A field that begins with a quote runs to
the next quote that is not doubled; what follows it up to the comma is kept as it is. Empty lines
are passed over, and so is a line whose first character is the number sign.
-/

namespace MarketReplay.Csv

/-- One record and the line on which it starts, counted from 1. -/
structure Record where
  line : Nat
  fields : List String

/-- Where the reader stands. -/
inductive Position where
  | recordStart
  | afterReturn
  | comment
  | fieldStart
  | plain
  | quoted
  | afterQuote
  deriving DecidableEq

/-- The reader's state. The open field, the open record and the records are kept reversed. -/
structure Reader where
  position : Position := .recordStart
  line : Nat := 1
  startLine : Nat := 1
  field : List Char := []
  fields : List String := []
  records : List Record := []

namespace Reader

/-- The reader with the open field closed. -/
def endField (r : Reader) : Reader :=
  { r with field := [], fields := String.ofList r.field.reverse :: r.fields }

/-- The reader with the open field and the open record closed. -/
def endRecord (r : Reader) : Reader :=
  let closed := r.endField
  { closed with fields := [], records := ⟨r.startLine, closed.fields.reverse⟩ :: r.records }

/-- The reader after the character that ends a line. -/
def endLine (r : Reader) (c : Char) : Reader :=
  { r.endRecord with position := if c = '\r' then .afterReturn else .recordStart }

/-- The reader with one more character in the open field. -/
def keep (r : Reader) (position : Position) (c : Char) : Reader :=
  { r with position, field := c :: r.field }

/-- The reader after a character outside quotes that is not the first of a quoted field. -/
def stepPlain (r : Reader) (c : Char) : Reader :=
  if c = ',' then { r.endField with position := .fieldStart }
  else if c = '\r' || c = '\n' then r.endLine c
  else r.keep .plain c

/-- The reader after the first character of a field. -/
def stepField (r : Reader) (c : Char) : Reader :=
  if c = '"' then { r with position := .quoted } else r.stepPlain c

/-- The reader after a character at the start of a line. -/
def stepStart (r : Reader) (c : Char) : Reader :=
  if c = '\r' || c = '\n' then { r with position := .recordStart }
  else if c = '#' then { r with position := .comment }
  else ({ r with startLine := r.line } : Reader).stepField c

/-- The reader after a character, lines not counted. -/
def stepChar (r : Reader) (c : Char) : Reader :=
  match r.position with
  | .recordStart => r.stepStart c
  | .afterReturn => if c = '\n' then { r with position := .recordStart } else r.stepStart c
  | .comment => if c = '\n' then { r with position := .recordStart } else r
  | .fieldStart => r.stepField c
  | .plain => r.stepPlain c
  | .quoted => if c = '"' then { r with position := .afterQuote } else r.keep .quoted c
  | .afterQuote => if c = '"' then r.keep .quoted c else r.stepPlain c

/-- The reader after a character. -/
def step (r : Reader) (c : Char) : Reader :=
  let next := r.stepChar c
  if c = '\n' then { next with line := r.line + 1 } else next

/-- The records of a text that ends here. -/
def finish (r : Reader) : List Record :=
  match r.position with
  | .recordStart | .afterReturn | .comment => r.records.reverse
  | _ => r.endRecord.records.reverse

end Reader

/-- The records of a text. -/
def records (cs : List Char) : List Record := (cs.foldl Reader.step {}).finish

end MarketReplay.Csv
