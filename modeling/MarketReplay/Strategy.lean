import MarketReplay.Strategy.Program

/-!
# Strategies

A strategy has a state of its own and a program for each callback. Schedules that run a callback
carry a code, from which the strategy makes the program.
-/

namespace MarketReplay

/-- A strategy's name, and the resolution it was written for if it needs one. -/
structure StrategySpec where
  name : String
  resolution : Option Resolution
  deriving DecidableEq

/-- Why a callback failed. -/
inductive StrategyError where
  | order (error : OrderError)
  | subscription (error : UniverseError)
  | message (text : String)
  deriving DecidableEq

/-- The text of the error. -/
def StrategyError.text : StrategyError → String
  | order e => "order command failed: " ++ e.message
  | subscription e => "universe command failed: " ++ e.message
  | message m => m

/-- A strategy's state after a callback, and the error if it failed. -/
structure Outcome (σ : Type) where
  state : σ
  error : Option StrategyError

/-- A strategy. -/
structure Strategy where
  State : Type
  Code : Type
  spec : StrategySpec
  initial : State
  onStart : State → Program Code (Outcome State)
  onSecuritiesChanged : State → Changes → Program Code (Outcome State)
  onData : State → DataSlice → Program Code (Outcome State)
  onOrderEvent : State → OrderEvent → Program Code (Outcome State)
  onScheduled : State → String → Program Code (Outcome State)
  onCallback : State → Code → Program Code (Outcome State)

namespace Strategy

/-- The callback that does nothing. -/
def idle {κ σ : Type} (state : σ) : Program κ (Outcome σ) := .done ⟨state, none⟩

/-- The program of a due schedule's action. -/
def onDue (s : Strategy) (state : s.State) :
    ScheduledAction s.Code → Program s.Code (Outcome s.State)
  | .callback code => s.onCallback state code
  | .named name => s.onScheduled state name

end Strategy

namespace Scheduler

/-- The label of a report: the schedule's name, or its number. -/
def label {κ : Type} (s : Scheduler κ) (due : DueCallback) : String :=
  match s.entry? due.entry with
  | some ⟨_, _, .named name, _, _, _⟩ => "scheduled:" ++ name
  | _ => "scheduled#" ++ toString due.entry

/-- The program of a report; a report of no known schedule does nothing. -/
def fire (strategy : Strategy) (s : Scheduler strategy.Code) (due : DueCallback)
    (state : strategy.State) : Program strategy.Code (Outcome strategy.State) :=
  match s.entry? due.entry with
  | none => Strategy.idle state
  | some entry => strategy.onDue state entry.action

end Scheduler

/-- The schedules asked for handed to the scheduler. -/
def Kernel.install {κ : Type} (k : Kernel κ) (s : Scheduler κ) : Kernel κ × Scheduler κ :=
  ({ k with pending := [] },
    k.pending.foldl (fun acc p => acc.register p.rule p.action p.registered) s)

end MarketReplay
