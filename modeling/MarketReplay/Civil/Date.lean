import MarketReplay.Text.Padded

/-!
# Civil dates

A date is a day number of the Gregorian calendar carried through all years; day 0 is the Monday
0001-01-01. `Date.ofCivil?` takes a year, month and day of month, and `Date.year`, `Date.month`,
`Date.dayOfMonth` take them back. The years run from -262143 to 262142.
-/

namespace MarketReplay

/-- The days of the week. -/
inductive Weekday where
  | monday | tuesday | wednesday | thursday | friday | saturday | sunday
  deriving DecidableEq, Repr

namespace Weekday

/-- Place in the week, Monday first. -/
def index : Weekday → Nat
  | monday => 0
  | tuesday => 1
  | wednesday => 2
  | thursday => 3
  | friday => 4
  | saturday => 5
  | sunday => 6

/-- The weekday at a place in the week. -/
def ofIndex : Nat → Weekday
  | 0 => monday
  | 1 => tuesday
  | 2 => wednesday
  | 3 => thursday
  | 4 => friday
  | 5 => saturday
  | _ => sunday

/-- Saturday and Sunday. -/
def isWeekend (w : Weekday) : Bool := w == saturday || w == sunday

end Weekday

namespace Civil

/-- Every fourth year is a leap year, of the full centuries only every fourth. -/
def isLeapYear (y : Int) : Bool := y % 4 == 0 && (y % 100 != 0 || y % 400 == 0)

/-- The day number of January 1. -/
def yearStart (y : Int) : Int :=
  365 * (y - 1) + (y - 1) / 4 - (y - 1) / 100 + (y - 1) / 400

/-- The year of a day number: its estimate from the mean year length, moved by one where the
estimate misses. -/
def yearOfDay (day : Int) : Int :=
  let guess := day * 400 / 146097 + 1
  if day < yearStart guess then guess - 1
  else if yearStart (guess + 1) ≤ day then guess + 1
  else guess

/-- Days of a month. -/
def daysInMonth (leap : Bool) : Nat → Nat
  | 1 => 31
  | 2 => if leap then 29 else 28
  | 3 => 31
  | 4 => 30
  | 5 => 31
  | 6 => 30
  | 7 => 31
  | 8 => 31
  | 9 => 30
  | 10 => 31
  | 11 => 30
  | 12 => 31
  | _ => 0

/-- Days of the year before a month. -/
def daysBeforeMonth (leap : Bool) : Nat → Nat
  | 0 => 0
  | m + 1 => daysBeforeMonth leap m + daysInMonth leap m

/-- Month and day of month, from `month` on, of the day that `ordinal` days follow. -/
def splitOrdinal (leap : Bool) : (months month ordinal : Nat) → Nat × Nat
  | 0, month, ordinal => (month, ordinal + 1)
  | months + 1, month, ordinal =>
    if ordinal < daysInMonth leap month then (month, ordinal + 1)
    else splitOrdinal leap months (month + 1) (ordinal - daysInMonth leap month)

/-- The day number of the first date, -262143-01-01. -/
def firstDay : Int := -95746130

/-- The day number of the last date, 262142-12-31. -/
def lastDay : Int := 95745398

end Civil

/-- A day of the calendar. -/
structure Date where
  day : Int
  first_le : Civil.firstDay ≤ day
  le_last : day ≤ Civil.lastDay
  deriving DecidableEq

namespace Date

open Civil

instance : Ord Date := ⟨compareOn Date.day⟩
instance : LT Date := ⟨fun a b => a.day < b.day⟩
instance : LE Date := ⟨fun a b => a.day ≤ b.day⟩
instance (a b : Date) : Decidable (a < b) := inferInstanceAs (Decidable (a.day < b.day))
instance (a b : Date) : Decidable (a ≤ b) := inferInstanceAs (Decidable (a.day ≤ b.day))

instance : Std.TransOrd Date := inferInstanceAs (Std.TransCmp (compareOn Date.day))

/-- Dates are told apart by their day numbers. -/
theorem ext_day {a b : Date} (h : a.day = b.day) : a = b := by
  cases a
  cases b
  cases h
  rfl

instance : Std.LawfulEqOrd Date where
  eq_of_compare {a b} h :=
    have h : compare a.day b.day = .eq := h
    ext_day (Std.LawfulEqCmp.eq_of_compare h)

/-- The first date. -/
def first : Date := ⟨firstDay, by decide, by decide⟩

/-- The last date. -/
def last : Date := ⟨lastDay, by decide, by decide⟩

instance : Inhabited Date := ⟨⟨0, by decide, by decide⟩⟩

/-- The date of a day number in range. -/
def ofDay? (day : Int) : Option Date :=
  if h : firstDay ≤ day ∧ day ≤ lastDay then some ⟨day, h.1, h.2⟩ else none

/-- The date of a year, month and day of month, if there is one. -/
def ofCivil? (year : Int) (month dayOfMonth : Nat) : Option Date :=
  let leap := isLeapYear year
  if 1 ≤ month && month ≤ 12 && 1 ≤ dayOfMonth && dayOfMonth ≤ daysInMonth leap month then
    ofDay? (yearStart year + daysBeforeMonth leap month + dayOfMonth - 1)
  else none

/-- The year. -/
def year (d : Date) : Int := yearOfDay d.day

/-- Days since January 1. -/
def ordinal (d : Date) : Nat := (d.day - yearStart d.year).toNat

/-- Month and day of month. -/
def monthDay (d : Date) : Nat × Nat := splitOrdinal (isLeapYear d.year) 11 1 d.ordinal

/-- The month, 1 to 12. -/
def month (d : Date) : Nat := d.monthDay.1

/-- The day of the month, from 1. -/
def dayOfMonth (d : Date) : Nat := d.monthDay.2

/-- The day of the week. -/
def weekday (d : Date) : Weekday := .ofIndex (d.day % 7).toNat

/-- The date `days` later. -/
def addDays? (d : Date) (days : Int) : Option Date := ofDay? (d.day + days)

/-- The next date. -/
def next? (d : Date) : Option Date := d.addDays? 1

/-- The date before. -/
def previous? (d : Date) : Option Date := d.addDays? (-1)

/-- The `n`-th given weekday of a month. -/
def nthWeekday? (year : Int) (month : Nat) (weekday : Weekday) (n : Nat) : Option Date :=
  match ofCivil? year month 1 with
  | none => none
  | some start =>
    let offset := (7 + weekday.index - start.weekday.index) % 7
    ofCivil? year month ((n - 1) * 7 + offset + 1)

/-- A year of four digits; a year that needs more, or a negative one, carries its sign. -/
def yearText (y : Int) : String :=
  if 0 ≤ y && y ≤ 9999 then Text.zeroPadded 4 y.natAbs
  else (if y < 0 then "-" else "+") ++ Text.zeroPadded 4 y.natAbs

/-- Year, month and day of month, with hyphens. -/
def text (d : Date) : String :=
  let (m, dom) := d.monthDay
  yearText d.year ++ "-" ++ Text.zeroPadded 2 m ++ "-" ++ Text.zeroPadded 2 dom

end Date

end MarketReplay
