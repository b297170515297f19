import MarketReplay.Calendar.Easter

/-!
# Exchange holidays

The dates on which the exchange stays closed for a whole day: ten rules per year, some on fixed
dates with observation on the nearest weekday, some on weekdays of a month, one before Easter.
-/

namespace MarketReplay.Calendar

/-- A fixed date is kept on the Friday before a Saturday and on the Monday after a Sunday. -/
def observed (d : Date) : Date :=
  match d.weekday with
  | .saturday => d.previous?.getD d
  | .sunday => d.next?.getD d
  | _ => d

/-- A fixed date of a year, as observed. -/
def fixedHoliday? (year : Int) (month dayOfMonth : Nat) : Option Date :=
  (Date.ofCivil? year month dayOfMonth).map observed

/-- New Year's Day moves from a Sunday to the Monday and is not kept on a Saturday. -/
def newYearsDay? (year : Int) : Option Date :=
  match Date.ofCivil? year 1 1 with
  | none => none
  | some d =>
    match d.weekday with
    | .saturday => none
    | .sunday => d.next?
    | _ => some d

/-- The last Monday of May, reached by going back from the last day of the month. -/
def lastMondayOfMay? (year : Int) : Option Date :=
  match Date.ofCivil? year 5 31 with
  | none => none
  | some d => d.addDays? (-(d.weekday.index : Int))

/-- The Friday before Easter. -/
def goodFriday? (year : Int) : Option Date :=
  (easterSunday? year).bind (·.addDays? (-2))

/-- The first year that keeps June 19. -/
def juneteenthFrom : Int := 2022

/-- The holidays by the rules of a year. -/
def holidaysOf (year : Int) : List Date :=
  [newYearsDay? year,
   Date.nthWeekday? year 1 .monday 3,
   Date.nthWeekday? year 2 .monday 3,
   goodFriday? year,
   lastMondayOfMay? year,
   fixedHoliday? year 7 4,
   Date.nthWeekday? year 9 .monday 1,
   Date.nthWeekday? year 11 .thursday 4,
   fixedHoliday? year 12 25,
   if juneteenthFrom ≤ year then fixedHoliday? year 6 19 else none].filterMap id

/-- Whether the exchange is closed for a holiday, by the rules of the date's own year. -/
def isHoliday (d : Date) : Bool := (holidaysOf d.year).contains d

end MarketReplay.Calendar
