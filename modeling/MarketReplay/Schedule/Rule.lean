import MarketReplay.Calendar

/-!
# Schedule rules

A rule says on which dates something is due and at what time of those dates. A time relative to
the session is a number of minutes, which must be representable as a span of time; a rule with a
greater offset overflows on every date with a session.
-/

namespace MarketReplay

/-- The dates of a rule. -/
inductive DateRule where
  | everyDay
  | everyTradingDay
  | on (date : Date)
  deriving DecidableEq

/-- The time of a rule on its dates: midnight, an hour and minute, minutes after the opening of the
session, or minutes before its close. -/
inductive TimeRule where
  | midnight
  | clock (hour minute : Nat)
  | afterOpen (minutes : Int)
  | beforeClose (minutes : Int)
  deriving DecidableEq

/-- Dates and time. -/
structure ScheduleRule where
  date : DateRule
  time : TimeRule
  deriving DecidableEq

/-- An offset that is no span of time. -/
structure OffsetOverflow where
  minutes : Int
  deriving DecidableEq

/-- The most minutes that a span of time has. -/
def maxOffsetMinutes : Int := 153722867280912

/-- Whether a number of minutes is a span of time. -/
def offsetFits (minutes : Int) : Bool := -maxOffsetMinutes ≤ minutes && minutes ≤ maxOffsetMinutes

/-- Whether a date is one of the rule's. -/
def DateRule.admits (rule : DateRule) (calendar : Calendar) (date : Date) : Bool :=
  match rule with
  | everyDay => true
  | everyTradingDay => calendar.isTradingDay date
  | on d => d = date

/-- The moment `minutes` after a moment, if there is such a moment. -/
def shiftMinutes (moment : Option DateTime) (minutes : Int) :
    Except OffsetOverflow (Option DateTime) :=
  match moment with
  | none => .ok none
  | some t => if offsetFits minutes then .ok (t.addSeconds? (minutes * 60)) else .error ⟨minutes⟩

/-- The time of a rule on a date. -/
def TimeRule.on (rule : TimeRule) (calendar : Calendar) (date : Date) :
    Except OffsetOverflow (Option DateTime) :=
  match rule with
  | midnight => .ok (some (.midnight date))
  | clock hour minute => .ok ((TimeOfDay.ofHourMinute? hour minute).map fun t => ⟨date, t⟩)
  | afterOpen minutes => shiftMinutes (calendar.sessionOpen date) minutes
  | beforeClose minutes => shiftMinutes (calendar.sessionClose date) (-minutes)

/-- The moment at which a rule is due on a date, if it is. -/
def ScheduleRule.fireTime (rule : ScheduleRule) (calendar : Calendar) (date : Date) :
    Except OffsetOverflow (Option DateTime) :=
  if rule.date.admits calendar date then rule.time.on calendar date else .ok none

end MarketReplay
