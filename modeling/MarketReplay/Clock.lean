import MarketReplay.Instant

/-!
# The step clock

A clock steps from the start of its first date through its last date, strictly rising by the step
of its resolution. Once the end is passed it stays exhausted.
-/

namespace MarketReplay

/-- Why a clock cannot be made. -/
inductive ClockError where
  | invalidRange (start stop : Date)
  deriving DecidableEq

/-- The text of the error. -/
def ClockError.message : ClockError → String
  | invalidRange start stop =>
    "invalid clock range: end " ++ stop.text ++ " is before start " ++ start.text

/-- A clock: its next moment, if any, and the moment at which it ends. -/
structure Clock where
  next : Option DateTime
  stop : DateTime
  resolution : Resolution

namespace Clock

/-- The clock over the dates from `start` through `last`. -/
def spanning (start last : Date) (resolution : Resolution) : Except ClockError Clock :=
  if last < start then .error (.invalidRange start last)
  else
    match last.next? with
    | none => .error (.invalidRange start last)
    | some stop => .ok ⟨some (.midnight start), .midnight stop, resolution⟩

/-- The next instant, not taken. -/
def peek (c : Clock) : Option Instant :=
  match c.next with
  | none => none
  | some t => if t < c.stop then some ⟨t, c.resolution⟩ else none

/-- The next instant and the clock after it. -/
def advance (c : Clock) : Option Instant × Clock :=
  match c.peek with
  | none => (none, { c with next := none })
  | some now => (some now, { c with next := now.time.addSeconds? c.resolution.seconds })

/-- Seconds since the start of day 0. -/
def secondsOf (t : DateTime) : Int := t.date.day * 86400 + t.time.second

/-- Instants that the clock has left. -/
def remaining (c : Clock) : Nat :=
  match c.next with
  | none => 0
  | some t =>
    let span := secondsOf c.stop - secondsOf t
    ((span + (c.resolution.seconds - 1)) / c.resolution.seconds).toNat

/-- What is left of a clock taken step by step through `f`, at most `steps` instants. -/
def foldSteps {α : Type} (f : α → Instant → α) : (steps : Nat) → Clock → α → α
  | 0, _, acc => acc
  | steps + 1, c, acc =>
    match c.advance with
    | (none, _) => acc
    | (some now, rest) => foldSteps f steps rest (f acc now)

end Clock

end MarketReplay
