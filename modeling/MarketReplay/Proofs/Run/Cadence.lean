import MarketReplay.Proofs.Run.Journals
import MarketReplay.Proofs.Universe.Cadence

/-!
# Runs with a selector that looks at the date only

No callback can see how often the selector is asked (`RunState.notify_asking`,
`RunState.dispatch_asking`), and a selector that looks at the date only answers alike. So a run that
asks it once per date takes step by step the course of the run that asks it at every step
(`RunState.Twins`), and has the same journal and the same result (`Engine.cadences_agree`).
-/

namespace MarketReplay

namespace Kernel

variable {κ α : Type} {sel : Selector}

/-- The kernel with what its universe keeps of the selector replaced. -/
def asking (m : sel.Memory) (k : Kernel κ) : Kernel κ := { k with tracked := k.tracked.asking m }

/-- Requests are answered alike. -/
theorem submit_asking (m : sel.Memory) (now : Instant) (request : OrderRequest) (k : Kernel κ) :
    (k.asking m).submit now request =
      ((k.submit now request).1, (k.submit now request).2.asking m) := by
  have hbook : (k.asking m).book.submit request (k.asking m).tracked
      (k.asking m).portfolio.cash now = k.book.submit request k.tracked k.portfolio.cash now := rfl
  unfold submit
  rw [hbook]
  cases k.book.submit request k.tracked k.portfolio.cash now <;> rfl

/-- Positions are closed alike. -/
theorem closeAll_asking (m : sel.Memory) (now : Instant) (positions : List (Symbol × Int))
    (k : Kernel κ) :
    closeAll now positions (k.asking m) =
      ((closeAll now positions k).1, (closeAll now positions k).2.asking m) := by
  induction positions generalizing k with
  | nil => rfl
  | cons position rest ih =>
      obtain ⟨symbol, quantity⟩ := position
      rw [closeAll, closeAll]
      by_cases hflat : quantity = 0
      · rw [if_pos hflat, if_pos hflat]
        exact ih k
      · rw [if_neg hflat, if_neg hflat, submit_asking]
        cases k.submit now ⟨symbol, wrap64 (-quantity), .market, none⟩ with
        | mk reply k' =>
            cases reply with
            | error e => rfl
            | ok order => simp only [ih k']

/-- A subscription is accepted or refused alike. -/
theorem subscribe_asking (m : sel.Memory) (result : Except UniverseError Universe)
    (k : Kernel κ) :
    (k.asking m).subscribe (result.map (Universe.asking m)) =
      ((k.subscribe result).1, (k.subscribe result).2.asking m) := by
  cases result <;> rfl

/-- A derived contract is found and subscribed alike. -/
theorem addDerivedContract_asking (m : sel.Memory) (now : Instant) (underlying : Symbol)
    (expiry : Date) (right : OptionRight) (style : OptionStyle) (k : Kernel κ) :
    (k.asking m).addDerivedContract now underlying expiry right style =
      ((k.addDerivedContract now underlying expiry right style).1,
        (k.addDerivedContract now underlying expiry right style).2.asking m) := by
  have hcontracts : (k.asking m).contracts = k.contracts := rfl
  unfold addDerivedContract
  rw [hcontracts]
  cases (k.contracts underlying now.date).find? (hasTerms expiry right style) with
  | none => rfl
  | some contract =>
      have hadd : (k.asking m).tracked.addContract contract =
          (k.tracked.addContract contract).map (Universe.asking m) :=
        (Universe.asking_apart m).addContract k.tracked contract
      simp only [hadd, subscribe_asking]
      cases k.tracked.addContract contract <;> rfl

/-- A removal is accepted or refused alike. -/
theorem removeInstrument_asking (m : sel.Memory) (now : Instant) (symbol : Symbol)
    (k : Kernel κ) :
    (k.asking m).removeInstrument now symbol =
      ((k.removeInstrument now symbol).1, (k.removeInstrument now symbol).2.asking m) := by
  have hremove : (k.asking m).tracked.removeInstrument symbol =
      (k.tracked.removeInstrument symbol).map (Universe.asking m) :=
    k.tracked.removeInstrument_asking m symbol
  unfold removeInstrument
  rw [hremove]
  cases k.tracked.removeInstrument symbol <;> rfl

end Kernel

section Programs

variable {κ α : Type} {sel : Selector}

/-- No command looks at what the universe keeps of the selector. -/
theorem Command.execute_asking (m : sel.Memory) (now : Instant) (c : Command κ) (k : Kernel κ) :
    c.execute now (k.asking m) = ((c.execute now k).1, (c.execute now k).2.asking m) := by
  cases c with
  | submit request => exact k.submit_asking m now request
  | cancel id =>
      have hbook : (k.asking m).book = k.book := rfl
      simp only [Command.execute, hbook]
      cases k.book.cancel id now <;> rfl
  | liquidate target =>
      exact Kernel.closeAll_asking m now (k.targets target)
        { k with book := (OrderBook.cancelAll now (k.openIds target) k.book).2 }
  | addInstrument symbol =>
      have hadd := (Universe.asking_apart m).addInstrument k.tracked symbol
      exact (congrArg (k.asking m).subscribe hadd).trans (k.subscribe_asking m _)
  | addContract contract =>
      have hadd := (Universe.asking_apart m).addContract k.tracked contract
      exact (congrArg (k.asking m).subscribe hadd).trans (k.subscribe_asking m _)
  | addDerivedContract underlying expiry right style =>
      exact k.addDerivedContract_asking m now underlying expiry right style
  | removeInstrument symbol => exact k.removeInstrument_asking m now symbol
  | optionChain underlying => rfl
  | schedule rule action => rfl
  | clock => rfl
  | security symbol => rfl
  | securities => rfl
  | portfolio => rfl
  | order id => rfl
  | openOrders => rfl

/-- No program looks at what the universe keeps of the selector. -/
theorem Program.run_asking (m : sel.Memory) (now : Instant) (p : Program κ α) (k : Kernel κ) :
    p.run now (k.asking m) = ((p.run now k).1, (p.run now k).2.asking m) := by
  induction p generalizing k with
  | done result => rfl
  | perform c resume ih =>
      rw [Program.run, Program.run, Command.execute_asking]
      exact ih (c.execute now k).1 (c.execute now k).2

end Programs

namespace RunState

variable {S : Strategy} {sel : Selector}

/-- The state with what is kept of the selector replaced. -/
def asking (m : sel.Memory) (r : RunState S sel) : RunState S sel :=
  { r with kernel := r.kernel.asking m, selector := m.state }

/-- What a phase gives, with what is kept of the selector replaced. -/
def askingBoth (m : sel.Memory) (result : RunState S sel × Option RunFailure) :
    RunState S sel × Option RunFailure :=
  (result.1.asking m, result.2)

/-! ### Phases -/

section Phases

variable (m : sel.Memory) (r : RunState S sel) (now : Instant)

theorem call_asking (label : String) (program : S.State → Program S.Code (Outcome S.State)) :
    (r.asking m).call now label program = askingBoth m (r.call now label program) := by
  have hrun := (program r.strategy).run_asking m now r.kernel
  have hkernel : (program (r.asking m).strategy).run now (r.asking m).kernel = _ := hrun
  unfold call
  rw [hkernel]
  rfl

theorem notifyChanges_asking (changes : Changes) :
    (r.asking m).notifyChanges now changes = askingBoth m (r.notifyChanges now changes) := by
  unfold notifyChanges
  split
  · rfl
  · exact call_asking m { r with merged := r.merged.merge changes } now _ _

theorem notifyData_asking (slice : DataSlice) :
    (r.asking m).notifyData now slice = askingBoth m (r.notifyData now slice) := by
  unfold notifyData
  split
  · rfl
  · exact call_asking m r now _ _

/-- Changes and data are told alike. -/
theorem notify_asking (changes : Changes) (slice : DataSlice) :
    (r.asking m).notify now changes slice = askingBoth m (r.notify now changes slice) := by
  unfold notify
  rw [notifyChanges_asking]
  cases r.notifyChanges now changes with
  | mk r' failure =>
      cases failure with
      | none => exact notifyData_asking m r' now slice
      | some failure => rfl

theorem deliver_asking (d : Delivery) :
    (r.asking m).deliver now d = askingBoth m (r.deliver now d) := by
  cases d with
  | event e =>
      exact call_asking m { r with delivered := r.delivered ++ [e] } now "on_order_event"
        fun state => S.onOrderEvent state e
  | fire due => exact call_asking m r now (r.scheduler.label due) (r.scheduler.fire S due)

theorem deliverAll_asking (deliveries : List Delivery) :
    deliverAll now deliveries (r.asking m) = askingBoth m (deliverAll now deliveries r) := by
  induction deliveries generalizing r with
  | nil => rfl
  | cons d rest ih =>
      rw [deliverAll, deliverAll, deliver_asking]
      cases r.deliver now d with
      | mk r' failure =>
          cases failure with
          | none => exact ih r'
          | some failure => rfl

/-- Events and due schedules are dispatched alike. -/
theorem dispatch_asking :
    (r.asking m).dispatch now = (r.dispatch now).map (askingBoth m) := by
  have hscheduler : (r.asking m).scheduler = r.scheduler := rfl
  unfold dispatch
  rw [hscheduler]
  cases r.scheduler.due now.time with
  | error o => rfl
  | ok result =>
      exact congrArg Except.ok (deliverAll_asking m (r.drained result.2) now _)

/-- The strategy's part of a step: it is told of changes and slice, then of events and due
schedules, and its schedules are installed. -/
def respond (changes : Changes) (slice : DataSlice) :
    Except OffsetOverflow (RunState S sel × Option RunFailure) :=
  Except.map (fun result => (result.1.install, result.2))
    (match r.notify now changes slice with
    | (r', some failure) => .ok (r', some failure)
    | (r', none) => r'.dispatch now)

/-- The strategy's part of a step is the same. -/
theorem respond_asking (changes : Changes) (slice : DataSlice) :
    (r.asking m).respond now changes slice =
      (r.respond now changes slice).map (askingBoth m) := by
  unfold respond
  rw [notify_asking]
  cases r.notify now changes slice with
  | mk r' failure =>
      cases failure with
      | some failure => rfl
      | none =>
          simp only [askingBoth, dispatch_asking]
          cases r'.dispatch now <;> rfl

/-- An initialization is the same. -/
theorem launch_asking : (r.asking m).launch now = askingBoth m (r.launch now) := by
  unfold launch
  rw [call_asking]
  rfl

end Phases

/-! ### Steps -/

/-- The market's part of a step, with the selection given. -/
def marketOf (selected : SortedSet Symbol) (r : RunState S sel) (now : Instant) :
    Changes × DataSlice × RunState S sel :=
  let (changes, tracked) := r.kernel.tracked.resolveTo selected
  let (slice, observed) := observe { r with kernel := { r.kernel with tracked } } now
  (changes, slice, observed.fillOrders now slice)

/-- Whether two states differ in nothing but what is kept of the selector, and both recall given
answers. -/
def Twins (answer : Date → SortedSet Symbol) (r r' : RunState S sel) : Prop :=
  ∃ (q : RunState S sel) (m m' : sel.Memory),
    r = q.asking m ∧ r' = q.asking m' ∧ m.Recalls answer ∧ m'.Recalls answer

variable {answer : Date → SortedSet Symbol} {r r' : RunState S sel}

/-- The selection of the market's part of a step is the answer of the date. -/
theorem market_asking (hanswers : sel.Answers answer) {m : sel.Memory} (hm : m.Recalls answer)
    (r : RunState S sel) (now : Instant) :
    ∃ m' : sel.Memory, m'.Recalls answer ∧ (r.asking m).market now =
      ((r.marketOf (answer now.date) now).1, (r.marketOf (answer now.date) now).2.1,
        (r.marketOf (answer now.date) now).2.2.asking m') := by
  obtain ⟨m', hm', hresolve⟩ := Universe.resolve_asking hanswers hm now
  refine ⟨m', hm', ?_⟩
  have huniverse : (r.asking m).kernel.tracked.resolve now sel (r.asking m).selector = _ :=
    hresolve r.kernel.tracked
  unfold market RunState.resolve
  rw [huniverse]
  rfl

/-- A step of twins fails alike or leaves twins. -/
theorem Twins.step (hanswers : sel.Answers answer) (h : Twins answer r r') (now : Instant) :
    (∃ o, r.step now = .error o ∧ r'.step now = .error o) ∨
    ∃ q q' failure, r.step now = .ok (q, failure) ∧ r'.step now = .ok (q', failure) ∧
      Twins answer q q' := by
  obtain ⟨base, m, m', rfl, rfl, hm, hm'⟩ := h
  -- Both states take the same part in the market, and then the strategy sees no difference.
  have hstep : ∀ {m : sel.Memory}, m.Recalls answer → ∃ m' : sel.Memory, m'.Recalls answer ∧
      (base.asking m).step now =
        ((base.marketOf (answer now.date) now).2.2.respond now
          (base.marketOf (answer now.date) now).1
          (base.marketOf (answer now.date) now).2.1).map (askingBoth m') := by
    intro m hm
    obtain ⟨m', hm', hmarket⟩ := market_asking hanswers hm base now
    refine ⟨m', hm', ?_⟩
    rw [← respond_asking]
    unfold RunState.step phases respond
    rewrite [hmarket]
    rfl
  obtain ⟨left, hleft, heq⟩ := hstep hm
  obtain ⟨right, hright, heq'⟩ := hstep hm'
  rw [heq, heq']
  cases (base.marketOf (answer now.date) now).2.2.respond now
      (base.marketOf (answer now.date) now).1 (base.marketOf (answer now.date) now).2.1 with
  | error o => exact .inl ⟨o, rfl, rfl⟩
  | ok result => exact .inr ⟨_, _, _, rfl, rfl, result.1, left, right, rfl, rfl, hleft, hright⟩

end RunState

/-! ### Runs -/

namespace RunProgress

variable {S : Strategy} {sel : Selector} {answer : Date → SortedSet Symbol}
  {p p' : RunProgress S sel}

/-- Whether two runs have come equally far, in states that differ in nothing but what is kept of
the selector. -/
structure Twins (answer : Date → SortedSet Symbol) (p p' : RunProgress S sel) : Prop where
  state : RunState.Twins answer p.state p'.state
  steps_eq : p.steps = p'.steps
  curve_eq : p.curve = p'.curve
  failure_eq : p.failure = p'.failure

/-- What two steps or runs give, if neither can be taken or both leave twins. -/
def TwinsOr {ε : Type} (answer : Date → SortedSet Symbol)
    (result result' : Except ε (RunProgress S sel)) : Prop :=
  (∃ e, result = .error e ∧ result' = .error e) ∨
    ∃ q q', result = .ok q ∧ result' = .ok q' ∧ Twins answer q q'

/-- A step of twins cannot be taken on both sides, or leaves twins. -/
theorem Twins.step (hanswers : sel.Answers answer) (h : Twins answer p p') (clock : Clock)
    (now : Instant) : TwinsOr answer (p.step clock now) (p'.step clock now) := by
  unfold RunProgress.step
  rcases h.state.step hanswers now with ⟨o, hp, hp'⟩ | ⟨q, q', failure, hp, hp', hq⟩
  · rw [hp, hp']
    exact .inl ⟨o, rfl, rfl⟩
  · rw [hp, hp']
    refine .inr ?_
    have hpoint : q.equityPoint now.date = q'.equityPoint now.date := by
      obtain ⟨base, m, m', rfl, rfl, -, -⟩ := hq
      rfl
    cases failure with
    | some failure => exact ⟨_, _, rfl, rfl, hq, congrArg (· + 1) h.steps_eq, h.curve_eq, rfl⟩
    | none =>
        refine ⟨_, _, rfl, rfl, hq, congrArg (· + 1) h.steps_eq, ?_, rfl⟩
        simp only [h.curve_eq, hpoint]

/-- The steps of a clock from twins cannot be taken on both sides, or leave twins. -/
theorem Twins.loop (hanswers : sel.Answers answer) (h : Twins answer p p') (fuel : Nat)
    (clock : Clock) :
    TwinsOr answer (RunProgress.loop fuel clock p) (RunProgress.loop fuel clock p') := by
  induction fuel generalizing clock p p' with
  | zero => exact .inr ⟨p, p', rfl, rfl, h⟩
  | succ fuel ih =>
      rw [RunProgress.loop, RunProgress.loop, ← h.failure_eq]
      by_cases hfailed : p.failure.isSome
      · rw [if_pos hfailed, if_pos hfailed]
        exact .inr ⟨p, p', rfl, rfl, h⟩
      · rw [if_neg hfailed, if_neg hfailed]
        cases hadvance : clock.advance with
        | mk next rest =>
            cases next with
            | none => exact .inr ⟨p, p', rfl, rfl, h⟩
            | some now =>
                rcases h.step hanswers rest now with ⟨o, hp, hp'⟩ | ⟨q, q', hp, hp', hq⟩
                · simp only [hp, hp']
                  exact .inl ⟨o, rfl, rfl⟩
                · simp only [hp, hp']
                  exact ih hq rest

end RunProgress

/-- The result of the same run with another cadence: settings and identity are others. -/
def RunResult.withCadence (cadence : SelectionCadence) (r : RunResult) : RunResult :=
  { r with
    replayId := MarketReplay.replayId r.strategy { r.settings with cadence }
    settings := { r.settings with cadence } }

namespace Engine

/-- The engine with another cadence in its settings. -/
abbrev withCadence (cadence : SelectionCadence) (e : Engine) : Engine :=
  { e with settings := { e.settings with cadence } }

variable {e : Engine} {answer : Date → SortedSet Symbol}

/-- Runs that ask the selector at every step and once per date are twins after any steps. -/
theorem after_twins (hanswers : e.selector.Answers answer) (S : Strategy) (steps : Nat) :
    @RunProgress.TwinsOr S e.selector _ answer ((e.withCadence .everyStep).after S steps)
      ((e.withCadence .daily).after S steps) := by
  have hbegin : @RunProgress.Twins S e.selector answer ((e.withCadence .everyStep).begin S)
      ((e.withCadence .daily).begin S) := by
    have hlaunch := fun cadence => RunState.launch_asking (e.selector.unasked cadence)
      (RunState.start S e.selector e.settings e.prices e.contracts)
      (.startOf e.settings.start e.settings.resolution)
    let launched := (RunState.start S e.selector e.settings e.prices e.contracts).launch
      (.startOf e.settings.start e.settings.resolution)
    have hbegin : ∀ cadence, (e.withCadence cadence).begin S =
        ⟨launched.1.asking (e.selector.unasked cadence), 0, [], launched.2⟩ := fun cadence =>
      congrArg (fun result : RunState S e.selector × Option RunFailure =>
        (⟨result.1, 0, [], result.2⟩ : RunProgress S e.selector)) (hlaunch cadence)
    rw [hbegin, hbegin]
    exact ⟨⟨launched.1, _, _, rfl, rfl, e.selector.unasked_recalls _ answer,
      e.selector.unasked_recalls _ answer⟩, rfl, rfl, rfl⟩
  have hclock : (e.withCadence .everyStep).clock = (e.withCadence .daily).clock := rfl
  unfold after
  rw [hclock]
  cases StrategyHost.checkSpec S.spec e.settings.resolution with
  | error failure => exact .inl ⟨_, rfl, rfl⟩
  | ok =>
      cases (e.withCadence .daily).clock with
      | error failure => exact .inl ⟨_, rfl, rfl⟩
      | ok clock =>
          rcases hbegin.loop hanswers steps clock with ⟨o, hp, hp'⟩ | ⟨q, q', hp, hp', hq⟩
          · simp only [hp, hp']
            exact .inl ⟨_, rfl, rfl⟩
          · simp only [hp, hp']
            exact .inr ⟨q, q', rfl, rfl, hq⟩

/-- Runs that ask the selector at every step and once per date have the same journal. -/
theorem journal_withCadence (hanswers : e.selector.Answers answer) (S : Strategy) (steps : Nat) :
    (e.withCadence .daily).journal S steps = (e.withCadence .everyStep).journal S steps := by
  unfold journal
  rcases after_twins hanswers S.journaled steps with ⟨failure, hp, hp'⟩ | ⟨q, q', hp, hp', hq⟩
  · rw [hp, hp']
  · obtain ⟨base, m, m', hstate, hstate', -, -⟩ := hq.state
    rw [hp, hp']
    show Except.ok q'.state.strategy.2 = Except.ok q.state.strategy.2
    rw [hstate, hstate']
    rfl

/-- Twins have the same result, but for settings and identity. -/
theorem result_withCadence {S : Strategy} {p p' : RunProgress S e.selector}
    (h : RunProgress.Twins answer p p') :
    (e.withCadence .daily).result S p' =
      ((e.withCadence .everyStep).result S p).withCadence .daily := by
  obtain ⟨⟨base, m, m', hstate, hstate', -, -⟩, hsteps, hcurve, hfailure⟩ := h
  unfold result
  rw [hstate, hstate', hsteps, hcurve, hfailure]
  rfl

/-- Take a selector whose answers are one set per date. Under any operations on a universe with any
release policy, in any order of dates, the same is seen with both cadences. And a run that asks it
once per date has the same callbacks as the run that asks it at every step, with the same commands
and replies, where journaling changes nothing about these runs; its result is the same but for
settings and identity, or it fails alike. -/
theorem cadences_agree (e : Engine) (h : e.selector.ByDate) :
    (∀ release ops,
      Session.observations ops (.start e.selector release .daily) =
        Session.observations ops (.start e.selector release .everyStep)) ∧
    (∀ S steps,
      (e.withCadence .daily).journal S steps = (e.withCadence .everyStep).journal S steps) ∧
    (∀ cadence S steps, (e.withCadence cadence).after S steps =
      ((e.withCadence cadence).after S.journaled steps).map RunProgress.unjournaled) ∧
    (e.withCadence .daily).run =
      (e.withCadence .everyStep).run.map (RunResult.withCadence .daily) := by
  obtain ⟨answer, hanswers⟩ := h
  refine ⟨fun release ops => ?_, journal_withCadence hanswers,
    fun cadence => (e.withCadence cadence).after_unjournaled, ?_⟩
  · exact (Session.twins_start answer release .daily .everyStep).observations_eq hanswers ops
  · have hhost : (e.withCadence .daily).host = (e.withCadence .everyStep).host := rfl
    have hspan : (e.withCadence .daily).span = (e.withCadence .everyStep).span := rfl
    unfold run progress
    rw [hhost, hspan]
    cases (e.withCadence .everyStep).host.strategy with
    | error failure => rfl
    | ok S =>
        rcases after_twins hanswers S (e.withCadence .everyStep).span with
          ⟨failure, hp, hp'⟩ | ⟨q, q', hp, hp', hq⟩
        · simp only [hp, hp']
          rfl
        · simp only [hp, hp']
          exact congrArg Except.ok (result_withCadence hq)

/-- A selector that takes one symbol on dates of even number, and two on the others. -/
def alternating : Selector :=
  .ofFunction fun now =>
    if now.date.day % 2 = 0 then [.equity "SPY"] else [.equity "QQQ", .equity "SPY"]

/-- The sample run by hours of its first date, with the selection of its date. -/
def hourly : Engine :=
  { rising with
    selector := alternating
    settings := { RunSettings.sample with stop := RunSettings.sampleStart, resolution := .hour } }

/-- With this selector both cadences see a symbol leave and come back with the dates, and the hourly
run buys once with either. -/
theorem alternating_cadences :
    let first : Instant := .startOf RunSettings.sampleStart .hour
    let second : Instant := .startOf ⟨735148, by decide, by decide⟩ .hour
    let ops : List Operation :=
      [.resolve first, .removeInstrument (.equity "QQQ"), .resolve first, .resolve second,
        .addInstrument (.equity "IWM"), .resolve first]
    alternating.ByDate ∧
    Session.observations ops (.start alternating .withContract .daily) =
      Session.observations ops (.start alternating .withContract .everyStep) ∧
    (Session.observations ops (.start alternating .withContract .everyStep)).map
        (fun seen => seen.dataSymbols.map Symbol.text) =
      [["QQQ", "SPY"], ["QQQ", "SPY"], ["QQQ", "SPY"], ["SPY"], ["SPY"], ["IWM", "QQQ", "SPY"]] ∧
    (hourly.withCadence .daily).journal holder 24 =
      (hourly.withCadence .everyStep).journal holder 24 ∧
    (hourly.withCadence .daily).run =
      (hourly.withCadence .everyStep).run.map (RunResult.withCadence .daily) ∧
    (hourly.withCadence .everyStep).run.toOption.map
        (fun r => (r.steps, r.orders.map Order.status)) =
      some (24, [.filled]) := by
  intro first second ops
  have hdate : alternating.ByDate :=
    ⟨fun date => .ofList
      (if date.day % 2 = 0 then [.equity "SPY"] else [.equity "QQQ", .equity "SPY"]),
      fun _ _ _ => rfl⟩
  obtain ⟨hsessions, hjournal, -, hrun⟩ := cadences_agree hourly hdate
  exact ⟨hdate, hsessions .withContract ops, by decide +kernel, hjournal holder 24, hrun,
    by decide +kernel⟩

end Engine

end MarketReplay
