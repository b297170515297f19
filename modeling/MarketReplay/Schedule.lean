import MarketReplay.Schedule.Rule
import MarketReplay.Text.Quoted

/-!
# The scheduler

Each registered schedule is reported once for each moment at which its rule is due, never for a
moment before its registration. A request at a moment looks at the dates from that of the last
request on; what it reports is sorted by time and then by registration.
-/

namespace MarketReplay

/-- What a schedule does when it is due: run a callback of the strategy by its code, or deliver a
name. -/
inductive ScheduledAction (κ : Type) where
  | callback (code : κ)
  | named (name : String)

/-- The text that shows an action. -/
def ScheduledAction.text {κ : Type} : ScheduledAction κ → String
  | callback _ => "Callback(..)"
  | named name => "Named(" ++ Text.quoted name ++ ")"

/-- One report of one schedule. -/
structure DueCallback where
  entry : Nat
  time : DateTime
  deriving DecidableEq

/-- A registered schedule: the date from which it is looked at, and the last moment reported. -/
structure ScheduleEntry (κ : Type) where
  id : Nat
  rule : ScheduleRule
  action : ScheduledAction κ
  registered : DateTime
  scanFrom : Date
  firedThrough : Option DateTime

/-- Registered schedules in the order of registration. -/
structure Scheduler (κ : Type) where
  calendar : Calendar
  entries : List (ScheduleEntry κ)

namespace ScheduleEntry

variable {κ : Type}

/-- Whether a moment is to be reported by a request at `now`: after the last one reported, not
before the registration, and not in the future. -/
def reports (e : ScheduleEntry κ) (now t : DateTime) : Bool :=
  let fresh := match e.firedThrough with
    | none => true
    | some last => last < t
  fresh && e.registered ≤ t && t ≤ now

/-- The moments to report on `dates` dates from a date on, and the entry after them. -/
def scan (calendar : Calendar) (now : DateTime) :
    (dates : Nat) → Date → ScheduleEntry κ → Except OffsetOverflow (List DateTime × ScheduleEntry κ)
  | 0, _, e => .ok ([], e)
  | dates + 1, d, e =>
    match e.rule.fireTime calendar d with
    | .error o => .error o
    | .ok moment =>
      let due := moment.filter (e.reports now)
      let e' := match due with
        | none => e
        | some t => { e with firedThrough := some t }
      match d.next? with
      | none => .ok (due.toList, e')
      | some next =>
        match scan calendar now dates next e' with
        | .error o => .error o
        | .ok (ts, e'') => .ok (due.toList ++ ts, e'')

/-- The reports of an entry at a moment, and the entry after them. -/
def due (calendar : Calendar) (now : DateTime) (e : ScheduleEntry κ) :
    Except OffsetOverflow (List DueCallback × ScheduleEntry κ) :=
  let dates := (now.date.day - e.scanFrom.day + 1).toNat
  match scan calendar now dates e.scanFrom e with
  | .error o => .error o
  | .ok (ts, e') => .ok (ts.map fun t => ⟨e.id, t⟩, { e' with scanFrom := now.date })

end ScheduleEntry

namespace Scheduler

variable {κ : Type}

/-- The scheduler without schedules. -/
def start (calendar : Calendar) : Scheduler κ := ⟨calendar, []⟩

/-- The number of schedules. -/
def size (s : Scheduler κ) : Nat := s.entries.length

/-- The scheduler with a schedule registered at a moment; its number is the count before it. -/
def register (s : Scheduler κ) (rule : ScheduleRule) (action : ScheduledAction κ)
    (registered : DateTime) : Scheduler κ :=
  { s with entries := s.entries ++ [⟨s.size, rule, action, registered, registered.date, none⟩] }

/-- The entry of a number. -/
def entry? (s : Scheduler κ) (id : Nat) : Option (ScheduleEntry κ) :=
  s.entries.find? fun e => e.id = id

/-- The reports of entries in turn, and the entries after them. -/
def dueEntries (calendar : Calendar) (now : DateTime) : List (ScheduleEntry κ) →
    Except OffsetOverflow (List DueCallback × List (ScheduleEntry κ))
  | [] => .ok ([], [])
  | e :: rest =>
    match e.due calendar now with
    | .error o => .error o
    | .ok (due, e') =>
      match dueEntries calendar now rest with
      | .error o => .error o
      | .ok (more, rest') => .ok (due ++ more, e' :: rest')

/-- Whether a report comes no later than another: by time, then by registration. -/
def precedes (a b : DueCallback) : Bool :=
  a.time < b.time || (a.time = b.time && a.entry ≤ b.entry)

/-- What is due at a moment, and the scheduler after reporting it. -/
def due (s : Scheduler κ) (now : DateTime) :
    Except OffsetOverflow (List DueCallback × Scheduler κ) :=
  match dueEntries s.calendar now s.entries with
  | .error o => .error o
  | .ok (reports, entries) => .ok (reports.mergeSort precedes, { s with entries })

end Scheduler

end MarketReplay
