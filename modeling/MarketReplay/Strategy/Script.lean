import MarketReplay.Strategy.Document

/-!
# Scripted strategies

A script is a strategy given by rules in place of code: a rule names the callback that it answers,
conditions on it, and the steps that it then takes. The state of a scripted strategy is the count
of its callbacks of each kind and a log of callbacks and replies.
-/

namespace MarketReplay

/-- A step of a script: a command, or an error of its own. `stops` says whether an error ends the
callback. -/
inductive ScriptStep where
  | give (name : String) (stops : Bool) (command : Command (Bool × List ScriptStep))
  | fail (name : String) (stops : Bool) (message : String)
  | refuse (name : String) (error : DocumentError)

/-- The code of a scheduled callback: whether it is logged, and its steps. -/
abbrev ScriptCode := Bool × List ScriptStep

/-- The kinds of callbacks that rules answer. -/
inductive ScriptTrigger where
  | start | changes | data | orderEvent | scheduled
  deriving DecidableEq, Repr

/-- A rule: its steps are taken on the callbacks of its kind; `occurrence` limits it to one by
number, `moment` to those at a moment, `key` to those of an order status or schedule name. -/
structure ScriptRule where
  trigger : ScriptTrigger
  occurrence : Option Nat
  moment : Option String
  key : Option String
  steps : List ScriptStep

/-- A script. -/
structure Script where
  spec : StrategySpec
  rules : List ScriptRule

/-- What a callback tells. -/
inductive ScriptSubject where
  | start
  | changes (changes : Changes)
  | data (quotes : List (Symbol × Quote))
  | orderEvent (event : OrderEvent)
  | scheduled (name : String)

namespace ScriptSubject

/-- The kind of the callback. -/
def trigger : ScriptSubject → ScriptTrigger
  | start => .start
  | changes _ => .changes
  | data _ => .data
  | orderEvent _ => .orderEvent
  | scheduled _ => .scheduled

/-- The order status or schedule name that a rule's key is compared with. -/
def key : ScriptSubject → String
  | orderEvent e => e.status.name
  | scheduled name => name
  | _ => ""

end ScriptSubject

/-- An entry of a script's log. -/
inductive ScriptEntry where
  | called (now : Instant) (subject : ScriptSubject)
  | resumed (now : Instant)
  | replied (name : String) (command : Command ScriptCode) (reply : command.Reply)
  | failed (name : String) (error : StrategyError)
  | refused (name : String) (error : DocumentError)

/-- How many callbacks of each kind there were. -/
structure ScriptCounts where
  start : Nat
  changes : Nat
  data : Nat
  orderEvent : Nat
  scheduled : Nat

namespace ScriptCounts

/-- No callback. -/
def zero : ScriptCounts := ⟨0, 0, 0, 0, 0⟩

/-- The count of a kind. -/
def get (c : ScriptCounts) : ScriptTrigger → Nat
  | .start => c.start
  | .changes => c.changes
  | .data => c.data
  | .orderEvent => c.orderEvent
  | .scheduled => c.scheduled

/-- The counts with one more callback of a kind. -/
def next (c : ScriptCounts) : ScriptTrigger → ScriptCounts
  | .start => { c with start := c.start + 1 }
  | .changes => { c with changes := c.changes + 1 }
  | .data => { c with data := c.data + 1 }
  | .orderEvent => { c with orderEvent := c.orderEvent + 1 }
  | .scheduled => { c with scheduled := c.scheduled + 1 }

end ScriptCounts

/-- The state of a scripted strategy. The log is kept reversed. -/
structure ScriptState where
  counts : ScriptCounts
  quotes : Option (List (Symbol × Quote))
  log : List ScriptEntry

namespace ScriptState

/-- The state before the first callback. -/
def fresh : ScriptState := ⟨.zero, none, []⟩

instance : Inhabited ScriptState := ⟨fresh⟩

/-- The state with one more log entry. -/
def push (s : ScriptState) (entry : ScriptEntry) : ScriptState := { s with log := entry :: s.log }

/-- The state after the quotes of a callback on data; it is logged if they differ from the last. -/
def observe (s : ScriptState) (now : Instant) (subject : ScriptSubject) : ScriptState :=
  match subject with
  | .data quotes =>
    if s.quotes = some quotes then s
    else { s with quotes := some quotes }.push (.called now subject)
  | _ => s.push (.called now subject)

end ScriptState

namespace Script

/-- The program of steps in turn, up to the first that fails and stops. -/
def stepsProgram : List ScriptStep → ScriptState → Program ScriptCode (Outcome ScriptState)
  | [], s => Strategy.idle s
  | .give name stops command :: rest, s =>
    .perform command fun reply =>
      let s' := s.push (.replied name command reply)
      match stops, command.failure? reply with
      | true, some e => .done ⟨s', some e⟩
      | _, _ => stepsProgram rest s'
  | .fail name stops message :: rest, s =>
    let s' := s.push (.failed name (.message message))
    if stops then .done ⟨s', some (.message message)⟩ else stepsProgram rest s'
  | .refuse name error :: rest, s => stepsProgram rest (s.push (.refused name error))

/-- Whether a rule answers a callback, the `count`-th of its kind. -/
def answers (rule : ScriptRule) (now : Instant) (count : Nat) (subject : ScriptSubject) : Bool :=
  rule.trigger = subject.trigger && rule.occurrence.all (· = count) &&
    rule.moment.all (· = now.text) && rule.key.all (· = subject.key)

/-- The program of a callback. -/
def callback (rules : List ScriptRule) (subject : ScriptSubject) (s : ScriptState) :
    Program ScriptCode (Outcome ScriptState) :=
  .perform .clock fun reply =>
    let now := reply.1
    let counts := s.counts.next subject.trigger
    let rules := rules.filter fun r => answers r now (counts.get subject.trigger) subject
    stepsProgram (rules.flatMap ScriptRule.steps) ({ s with counts }.observe now subject)

/-- The program of a scheduled callback. -/
def resume (code : ScriptCode) (s : ScriptState) : Program ScriptCode (Outcome ScriptState) :=
  .perform .clock fun reply =>
    stepsProgram code.2 (if code.1 then s.push (.resumed reply.1) else s)

/-- The strategy of a script. -/
def strategy (script : Script) : Strategy where
  State := ScriptState
  Code := ScriptCode
  spec := script.spec
  initial := .fresh
  onStart := callback script.rules .start
  onSecuritiesChanged s changes := callback script.rules (.changes changes) s
  onData s slice := callback script.rules (.data slice.quotes.entries) s
  onOrderEvent s e := callback script.rules (.orderEvent e) s
  onScheduled s name := callback script.rules (.scheduled name) s
  onCallback s code := resume code s

end Script

namespace Reading

/-- The kinds of callbacks by name. -/
def triggers : List (String × ScriptTrigger) :=
  [("initialize", .start), ("changes", .changes), ("data", .data), ("order_event", .orderEvent),
   ("scheduled", .scheduled)]

/-- The step of a document; one that cannot be read refuses with the reason when it is taken. -/
def scriptStep (j : Json) : ScriptStep :=
  let name := ((j.member "c").asString?).getD ""
  let stops := ((j.member "raise").asBool?).getD false
  let code : Json → Reading ScriptCode := fun _ =>
    match _h : j.member "cmds" with
    | .array items => .ok (true, items.attach.map fun i => scriptStep i.1)
    | _ => .ok (true, [])
  if name = "fail" then .fail name stops (((j.member "message").asString?).getD "")
  else
    match command code j with
    | .ok c => .give name stops c
    | .error e => .refuse name e
termination_by sizeOf j
decreasing_by
  have hi := List.sizeOf_lt_of_mem i.2
  have hm := Json.sizeOf_member_le "cmds" j
  rw [_h] at hm
  simp at hm
  omega

/-- The steps of a document. -/
def scriptSteps (j : Json) : Reading (List ScriptStep) := list (fun i => .ok (scriptStep i)) j

/-- A rule. -/
def scriptRule (j : Json) : Reading ScriptRule := do
  return {
    trigger := ← j.read "cb" (choice triggers)
    occurrence := ← j.readOption "n" nat
    moment := ← j.readOption "at" text
    key := ← j.readOption "key" text
    steps := ← j.read "cmds" scriptSteps }

/-- A script. -/
def script (j : Json) : Reading Script := do
  let name ← j.readOr "name" "script" text
  let resolution ← j.readOption "resolution" (choice Json.resolutions)
  return ⟨⟨name, resolution⟩, ← j.read "rules" (list scriptRule)⟩

end Reading

/-- The document of an error of a document. -/
def DocumentError.toJson : DocumentError → Json
  | symbol e => .ofFailure e
  | shape expected => .ofFields [("error", .string "Shape"), ("message", .string expected)]

namespace ScriptEntry

/-- What a callback tells, as fields. -/
def subjectFields : ScriptSubject → List (String × Json)
  | .start => []
  | .changes c => [("changes", c.toJson)]
  | .data quotes => [("quotes", .ofQuotes quotes)]
  | .orderEvent e => [("event", e.toJson)]
  | .scheduled name => [("name", .string name)]

/-- The document of the reply to a step. -/
def stepJson (name : String) (reply : Json) : Json :=
  .ofFields [("cmd", .string name), ("r", reply)]

/-- The document of an entry. -/
def toJson : ScriptEntry → Json
  | called now subject =>
    .ofFields ([("cb", .ofChoice Reading.triggers subject.trigger), ("at", .string now.text)] ++
      subjectFields subject)
  | resumed now => .ofFields [("cb", .string "callback"), ("at", .string now.text)]
  | replied name command reply => stepJson name (command.replyJson reply)
  | failed name e => stepJson name (.ofFailure e)
  | refused name e => stepJson name e.toJson

end ScriptEntry

/-- The document of a script's log, the oldest entry first. -/
def ScriptState.logJson (s : ScriptState) : Json := .array (s.log.reverse.map ScriptEntry.toJson)

end MarketReplay
