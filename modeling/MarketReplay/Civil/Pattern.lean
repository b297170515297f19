import MarketReplay.Civil.Time
import MarketReplay.Text.Blank
import MarketReplay.Text.Digits

/-!
# Reading dates and times by pattern

A pattern is a list of items. A field takes blanks and then at least one digit, at most its width;
the year may carry a sign and then has no width. The blank item takes any number of blanks, the
fraction item an optional point with digits, of which nine count. A text is read if the pattern
takes all of it and the fields make a date or time, and refused for the first thing that is not so.
-/

namespace MarketReplay.Civil

/-- A field of a date or time. -/
inductive Field where
  | year | month | day | hour | minute | second
  deriving DecidableEq

/-- Digits that a field takes. -/
def Field.width : Field → Nat
  | year => 4
  | _ => 2

/-- The values that a field may have. -/
def Field.admits : Field → Int → Bool
  | year, n => -2147483648 ≤ n && n ≤ 2147483647
  | month, n => 1 ≤ n && n ≤ 12
  | day, n => 1 ≤ n && n ≤ 31
  | hour, n => 0 ≤ n && n ≤ 23
  | minute, n => 0 ≤ n && n ≤ 59
  | second, n => 0 ≤ n && n ≤ 60

/-- One item of a pattern. -/
inductive PatternItem where
  | literal (c : Char)
  | blanks
  | field (f : Field)
  | fraction

/-- The fields that a text gave. -/
structure Fields where
  year : Option Int := none
  month : Option Int := none
  day : Option Int := none
  hour : Option Int := none
  minute : Option Int := none
  second : Option Int := none
  nanos : Option Nat := none

/-- The fields with one more. -/
def Fields.set (fs : Fields) (f : Field) (n : Int) : Fields :=
  match f with
  | .year => { fs with year := some n }
  | .month => { fs with month := some n }
  | .day => { fs with day := some n }
  | .hour => { fs with hour := some n }
  | .minute => { fs with minute := some n }
  | .second => { fs with second := some n }

/-- Why a text is refused. -/
inductive PatternError where
  | tooShort | invalid | outOfRange | tooLong
  deriving DecidableEq

/-- The text of the error. -/
def PatternError.message : PatternError → String
  | tooShort => "premature end of input"
  | invalid => "input contains invalid characters"
  | outOfRange => "input is out of range"
  | tooLong => "trailing input"

/-- At least one digit, at most `width` if there is a width, and the text after them. -/
def readDigits (width : Option Nat) (cs : List Char) :
    Except PatternError (List Char × List Char) :=
  let run := cs.takeWhile Char.isDigit
  let digits := match width with
    | some w => run.take w
    | none => run
  if digits.isEmpty then .error (if cs.isEmpty then .tooShort else .invalid)
  else .ok (digits, cs.drop digits.length)

/-- The value of a field and the text after it. -/
def readField (f : Field) (cs : List Char) : Except PatternError (Int × List Char) :=
  match f, Text.trimLeft cs with
  | .year, '-' :: rest =>
    (readDigits none rest).map fun (ds, rest) => (-(Text.digitsValue ds : Int), rest)
  | .year, '+' :: rest =>
    (readDigits none rest).map fun (ds, rest) => ((Text.digitsValue ds : Int), rest)
  | f, rest =>
    (readDigits (some f.width) rest).map fun (ds, rest) => ((Text.digitsValue ds : Int), rest)

/-- The fields of a text that the pattern takes to its end. -/
def readItems : List PatternItem → List Char → Fields → Except PatternError Fields
  | [], [], fs => .ok fs
  | [], _ :: _, _ => .error .tooLong
  | .literal c :: items, d :: rest, fs =>
    if c = d then readItems items rest fs else .error .invalid
  | .literal _ :: _, [], _ => .error .tooShort
  | .blanks :: items, cs, fs => readItems items (Text.trimLeft cs) fs
  | .field f :: items, cs, fs =>
    match readField f cs with
    | .error e => .error e
    | .ok (n, rest) =>
      if f.admits n then readItems items rest (fs.set f n) else .error .outOfRange
  | .fraction :: items, '.' :: rest, fs =>
    match readDigits none rest with
    | .error e => .error e
    | .ok (ds, rest) =>
      readItems items rest { fs with nanos := some (Text.fractionValue 9 ds) }
  | .fraction :: items, cs, fs => readItems items cs fs

/-- The date of the fields. -/
def Fields.date? (fs : Fields) : Option Date := do
  Date.ofCivil? (← fs.year) (← fs.month).toNat (← fs.day).toNat

/-- The time of the fields; a missing second is zero. -/
def Fields.time? (fs : Fields) : Option TimeOfDay := do
  TimeOfDay.ofClock? (← fs.hour).toNat (← fs.minute).toNat (fs.second.getD 0).toNat
    (fs.nanos.getD 0)

/-- The date and time of the fields. -/
def Fields.dateTime? (fs : Fields) : Option DateTime := do
  return ⟨← fs.date?, ← fs.time?⟩

/-- Year, month and day with hyphens. -/
def datePattern : List PatternItem :=
  [.field .year, .literal '-', .field .month, .literal '-', .field .day]

/-- Year, month and day with hyphens; blanks before the hyphens and at the end are passed over. -/
def looseDatePattern : List PatternItem :=
  [.field .year, .blanks, .literal '-', .field .month, .blanks, .literal '-', .field .day, .blanks]

/-- Year, month and day without anything between them. -/
def compactDatePattern : List PatternItem := [.field .year, .field .month, .field .day]

/-- Hour, minute and second with colons. -/
def clockPattern : List PatternItem :=
  [.field .hour, .literal ':', .field .minute, .literal ':', .field .second]

/-- The date of a text that a pattern takes, or why it is refused. -/
def readDate (pattern : List PatternItem) (cs : List Char) : Except PatternError Date := do
  match (← readItems pattern cs {}).date? with
  | some date => return date
  | none => throw .outOfRange

/-- The date of a text that a pattern takes. -/
def readDate? (pattern : List PatternItem) (cs : List Char) : Option Date :=
  (readDate pattern cs).toOption

/-- The date and time of a text that a pattern takes, or why it is refused. -/
def readDateTime (pattern : List PatternItem) (cs : List Char) :
    Except PatternError DateTime := do
  match (← readItems pattern cs {}).dateTime? with
  | some moment => return moment
  | none => throw .outOfRange

/-- The date and time of a text that a pattern takes. -/
def readDateTime? (pattern : List PatternItem) (cs : List Char) : Option DateTime :=
  (readDateTime pattern cs).toOption

end MarketReplay.Civil

namespace MarketReplay

/-- The date of a text of year, month and day, or why it is refused. -/
def Date.read (s : String) : Except Civil.PatternError Date :=
  Civil.readDate Civil.looseDatePattern s.toList

/-- The date of a text of year, month and day. -/
def Date.parse? (s : String) : Option Date := (Date.read s).toOption

/-- The date and time of a text, a blank between them. -/
def DateTime.parse? (s : String) : Option DateTime :=
  Civil.readDateTime? (Civil.datePattern ++ [.blanks] ++ Civil.clockPattern ++ [.fraction]) s.toList

end MarketReplay
