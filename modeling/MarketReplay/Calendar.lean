import MarketReplay.Calendar.Holiday
import MarketReplay.Civil.Time

/-!
# Trading sessions

A calendar says which dates trade and when the session of such a date opens and closes. The search
for the next trading day looks at the ten dates after a date and no further.
-/

namespace MarketReplay

/-- A trading calendar: round the clock, or the weekdays of the exchange without its holidays. -/
inductive Calendar where
  | alwaysOn
  | exchangeWeekdays
  deriving DecidableEq, Repr

namespace Calendar

instance : Inhabited Calendar := ⟨exchangeWeekdays⟩

/-- The exchange opens at 09:30. -/
def openTime : TimeOfDay := ⟨34200, 0, by decide, TimeOfDay.midnight.nanos_lt⟩

/-- The exchange closes at 16:00. -/
def closeTime : TimeOfDay := ⟨57600, 0, by decide, TimeOfDay.midnight.nanos_lt⟩

/-- Whether a date trades. -/
def isTradingDay : Calendar → Date → Bool
  | alwaysOn, _ => true
  | exchangeWeekdays, d => !d.weekday.isWeekend && !isHoliday d

/-- The opening of a date's session. -/
def sessionOpen (c : Calendar) (d : Date) : Option DateTime :=
  if c.isTradingDay d then
    some (match c with
      | alwaysOn => .midnight d
      | exchangeWeekdays => ⟨d, openTime⟩)
  else none

/-- The close of a date's session, the first moment after it. -/
def sessionClose (c : Calendar) (d : Date) : Option DateTime :=
  if c.isTradingDay d then
    match c with
    | alwaysOn => d.next?.map .midnight
    | exchangeWeekdays => some ⟨d, closeTime⟩
  else none

/-- Dates that the search for the next trading day looks at. -/
def searchSpan : Nat := 10

/-- The first trading day among the `span` dates after a date. -/
def firstTradingDayWithin (c : Calendar) : (span : Nat) → Date → Option Date
  | 0, _ => none
  | span + 1, d =>
    match d.next? with
    | none => none
    | some next => if c.isTradingDay next then some next else c.firstTradingDayWithin span next

/-- The next trading day after a date. -/
def nextTradingDay (c : Calendar) (after : Date) : Option Date :=
  c.firstTradingDayWithin searchSpan after

/-- The opening of the next session after a date. -/
def nextSessionOpen (c : Calendar) (after : Date) : Option DateTime :=
  (c.nextTradingDay after).bind c.sessionOpen

/-- Whether a moment lies in a session: from its opening to before its close. -/
def isOpen (c : Calendar) (t : DateTime) : Bool :=
  match c.sessionOpen t.date, c.sessionClose t.date with
  | some opening, some close => opening ≤ t && t < close
  | _, _ => false

end Calendar

end MarketReplay
