import MarketReplay.Strategy

/-!
# Journals of callbacks

A journaled strategy does what the strategy does and records each of its callbacks: the instant,
what it was called for, the commands with their replies, and the error. A journaled program runs
like the program (`Program.journaled_erases`).
-/

namespace MarketReplay

/-- A command and its reply. -/
structure Exchange (κ : Type) where
  command : Command κ
  reply : command.Reply

/-- What a strategy is called for. -/
inductive Occasion (κ : Type) where
  | start
  | changes (changes : Changes)
  | data (slice : DataSlice)
  | event (e : OrderEvent)
  | scheduled (name : String)
  | callback (code : κ)

/-- The record of one callback. -/
structure JournalEntry (κ : Type) where
  instant : Instant
  occasion : Occasion κ
  exchanges : List (Exchange κ)
  error : Option StrategyError

/-- The outcome without the second part of the state. -/
def Outcome.forget {σ τ : Type} (o : Outcome (σ × τ)) : Outcome σ := ⟨o.state.1, o.error⟩

namespace Program

variable {κ α β σ τ : Type}

/-- The program that adds its commands and their replies to a log. -/
def logged : (log : List (Exchange κ)) → Program κ α → Program κ (α × List (Exchange κ))
  | log, done a => done (a, log)
  | log, perform c resume => perform c fun reply => (resume reply).logged (log ++ [⟨c, reply⟩])

/-- The program of a callback that enters itself in a journal. -/
def journaled (occasion : Occasion κ) (journal : List (JournalEntry κ))
    (p : Program κ (Outcome σ)) : Program κ (Outcome (σ × List (JournalEntry κ))) :=
  perform .clock fun (reply : Instant × Calendar) =>
    (p.logged []).bind fun (outcome, exchanges) =>
      done ⟨(outcome.state, journal ++ [⟨reply.1, occasion, exchanges, outcome.error⟩]),
        outcome.error⟩

/-- Whether a program runs like another but for a second part of the state. -/
def Erases (p : Program κ (Outcome (σ × τ))) (q : Program κ (Outcome σ)) : Prop :=
  ∀ now k, (p.run now k).1.forget = (q.run now k).1 ∧ (p.run now k).2 = (q.run now k).2

/-- One program after another runs after it. -/
theorem run_bind (now : Instant) (p : Program κ α) (next : α → Program κ β) (k : Kernel κ) :
    (p.bind next).run now k = (next (p.run now k).1).run now (p.run now k).2 := by
  induction p generalizing k with
  | done a => rfl
  | perform c resume ih => exact ih _ _

/-- A logged program has the result of the program, and leaves the kernel that it leaves. -/
theorem run_logged (now : Instant) (log : List (Exchange κ)) (p : Program κ α) (k : Kernel κ) :
    ((p.logged log).run now k).1.1 = (p.run now k).1 ∧
      ((p.logged log).run now k).2 = (p.run now k).2 := by
  induction p generalizing k log with
  | done a => exact ⟨rfl, rfl⟩
  | perform c resume ih => exact ih _ _ _

/-- A journaled program runs the logged one, and adds its record to the journal. -/
theorem run_journaled (occasion : Occasion κ) (journal : List (JournalEntry κ))
    (p : Program κ (Outcome σ)) (now : Instant) (k : Kernel κ) :
    (p.journaled occasion journal).run now k =
      let ((outcome, exchanges), k') := (p.logged []).run now k
      (⟨(outcome.state, journal ++ [⟨now, occasion, exchanges, outcome.error⟩]), outcome.error⟩,
        k') := by
  have hrun : (p.journaled occasion journal).run now k =
      ((p.logged []).bind fun (outcome, exchanges) =>
        done ⟨(outcome.state, journal ++ [⟨now, occasion, exchanges, outcome.error⟩]),
          outcome.error⟩).run now k := rfl
  rw [hrun, run_bind]
  rfl

/-- A journaled program runs like the program. -/
theorem journaled_erases (occasion : Occasion κ) (journal : List (JournalEntry κ))
    (p : Program κ (Outcome σ)) : (p.journaled occasion journal).Erases p := by
  intro now k
  obtain ⟨hresult, hkernel⟩ := p.run_logged now [] k
  rw [run_journaled]
  refine ⟨?_, hkernel⟩
  rw [← hresult]
  rfl

/-- Doing nothing runs like doing nothing. -/
theorem idle_erases (state : σ × τ) :
    (Strategy.idle state : Program κ _).Erases (Strategy.idle state.1) :=
  fun _ _ => ⟨rfl, rfl⟩

end Program

/-- The strategy with a journal of its callbacks. -/
def Strategy.journaled (S : Strategy) : Strategy where
  State := S.State × List (JournalEntry S.Code)
  Code := S.Code
  spec := S.spec
  initial := (S.initial, [])
  onStart state := (S.onStart state.1).journaled .start state.2
  onSecuritiesChanged state changes :=
    (S.onSecuritiesChanged state.1 changes).journaled (.changes changes) state.2
  onData state slice := (S.onData state.1 slice).journaled (.data slice) state.2
  onOrderEvent state e := (S.onOrderEvent state.1 e).journaled (.event e) state.2
  onScheduled state name := (S.onScheduled state.1 name).journaled (.scheduled name) state.2
  onCallback state code := (S.onCallback state.1 code).journaled (.callback code) state.2

/-- A due schedule's action is journaled. -/
theorem Strategy.onDue_erases {S : Strategy} (action : ScheduledAction S.Code)
    (state : S.journaled.State) :
    (S.journaled.onDue state action).Erases (S.onDue state.1 action) := by
  cases action with
  | callback code => exact Program.journaled_erases _ _ _
  | named name => exact Program.journaled_erases _ _ _

/-- A report fires the journaled program of its action. -/
theorem Scheduler.fire_erases {S : Strategy} (s : Scheduler S.Code) (due : DueCallback)
    (state : S.journaled.State) :
    (Scheduler.fire S.journaled s due state).Erases (s.fire S due state.1) := by
  cases hentry : s.entry? due.entry with
  | none =>
      have hentry' : @Scheduler.entry? S.journaled.Code s due.entry = none := hentry
      simp only [fire, hentry, hentry']
      exact Program.idle_erases state
  | some entry =>
      have hentry' : @Scheduler.entry? S.journaled.Code s due.entry = some entry := hentry
      simp only [fire, hentry, hentry']
      exact Strategy.onDue_erases entry.action state

end MarketReplay
