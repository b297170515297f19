import MarketReplay.Proofs.Run.Phases
import MarketReplay.Proofs.Run.Steps
import MarketReplay.Proofs.Strategy.Journal
import MarketReplay.Proofs.Tape.Feed
import MarketReplay.Strategy.Builtin

/-!
# No look-ahead

A run with one price source is followed by the journaled run with another one, as long as the
sources have the same points up to each instant taken (`RunState.step_forget`). So two runs whose
sources agree up to a moment are the same up to it, with the same journal (`Engine.no_look_ahead`).
-/

namespace MarketReplay

namespace RunState

variable {S : Strategy} {sel : Selector}

/-- The state of a journaled run without the journal, and with another feed. -/
def forget (f : Feed) (r : RunState S.journaled sel) : RunState S sel where
  kernel := r.kernel
  scheduler := r.scheduler
  feed := f
  marks := r.marks
  merged := r.merged
  delivered := r.delivered
  strategy := r.strategy.1
  selector := r.selector

/-- What a phase of a journaled run gives, without the journal and with another feed. -/
def forgetBoth (f : Feed) (result : RunState S.journaled sel × Option RunFailure) :
    RunState S sel × Option RunFailure :=
  (result.1.forget f, result.2)

/-- A callback is followed by the journaled one. -/
theorem call_forget {program : S.State → Program S.Code (Outcome S.State)}
    {program' : S.journaled.State → Program S.Code (Outcome S.journaled.State)}
    (h : ∀ state, (program' state).Erases (program state.1)) (f : Feed)
    (r : RunState S.journaled sel) (now : Instant) (label : String) :
    (r.forget f).call now label program = forgetBoth f (r.call now label program') := by
  obtain ⟨hresult, hkernel⟩ := h r.strategy now r.kernel
  unfold call forgetBoth forget
  simp only [← hresult, ← hkernel]
  rfl

/-- Changes are told alike. -/
theorem notifyChanges_forget (f : Feed) (r : RunState S.journaled sel) (now : Instant)
    (changes : Changes) :
    (r.forget f).notifyChanges now changes = forgetBoth f (r.notifyChanges now changes) := by
  unfold notifyChanges
  split
  · rfl
  · exact call_forget (fun state => Program.journaled_erases _ _ _) f
      { r with merged := r.merged.merge changes } now _

/-- A slice is given alike. -/
theorem notifyData_forget (f : Feed) (r : RunState S.journaled sel) (now : Instant)
    (slice : DataSlice) :
    (r.forget f).notifyData now slice = forgetBoth f (r.notifyData now slice) := by
  unfold notifyData
  split
  · rfl
  · exact call_forget (fun state => Program.journaled_erases _ _ _) f r now _

/-- Changes and slice together are told alike. -/
theorem notify_forget (f : Feed) (r : RunState S.journaled sel) (now : Instant)
    (changes : Changes) (slice : DataSlice) :
    (r.forget f).notify now changes slice = forgetBoth f (r.notify now changes slice) := by
  unfold notify
  rw [notifyChanges_forget]
  cases r.notifyChanges now changes with
  | mk r' failure =>
      cases failure with
      | none => exact notifyData_forget f r' now slice
      | some failure => rfl

/-- Deliveries are made alike. -/
theorem deliver_forget (f : Feed) (r : RunState S.journaled sel) (now : Instant) (d : Delivery) :
    (r.forget f).deliver now d = forgetBoth f (r.deliver now d) := by
  cases d with
  | event e =>
      let recorded : RunState S.journaled sel := { r with delivered := r.delivered ++ [e] }
      show (recorded.forget f).call now "on_order_event" (fun state => S.onOrderEvent state e) =
        forgetBoth f (recorded.call now "on_order_event" fun state =>
          S.journaled.onOrderEvent state e)
      exact call_forget (fun state => Program.journaled_erases _ _ _) f recorded now _
  | fire due =>
      show (r.forget f).call now (r.scheduler.label due) (Scheduler.fire S r.scheduler due) =
        forgetBoth f (r.call now (r.scheduler.label due)
          (Scheduler.fire S.journaled r.scheduler due))
      exact call_forget (Scheduler.fire_erases (S := S) r.scheduler due) f r now _

/-- Deliveries in turn are made alike, up to the first that fails. -/
theorem deliverAll_forget (f : Feed) (now : Instant) (deliveries : List Delivery)
    (r : RunState S.journaled sel) :
    deliverAll now deliveries (r.forget f) = forgetBoth f (deliverAll now deliveries r) := by
  induction deliveries generalizing r with
  | nil => rfl
  | cons d rest ih =>
      rw [deliverAll, deliverAll, deliver_forget]
      cases r.deliver now d with
      | mk r' failure =>
          cases failure with
          | none => exact ih r'
          | some failure => rfl

/-- Dispatches are the same. -/
theorem dispatch_forget (f : Feed) (r : RunState S.journaled sel) (now : Instant) :
    (r.forget f).dispatch now = (r.dispatch now).map (forgetBoth f) := by
  unfold dispatch
  cases hdue : r.scheduler.due now.time with
  | error o =>
      have hdue' : (r.forget f).scheduler.due now.time = .error o := hdue
      simp only [hdue']
      rfl
  | ok result =>
      have hdue' : (r.forget f).scheduler.due now.time = .ok result := hdue
      simp only [hdue']
      exact congrArg Except.ok (deliverAll_forget f now _ (r.drained result.2))

/-- If the feeds give the same slice, the market's part of a step is the same. -/
theorem market_forget {f : Feed} {r : RunState S.journaled sel} {now : Instant}
    (hslice : ∀ symbols, (f.slice now symbols).1 = (r.feed.slice now symbols).1) :
    ∃ symbols, (r.market now).2.2.feed = (r.feed.slice now symbols).2 ∧
      (r.forget f).market now = ((r.market now).1, (r.market now).2.1,
        (r.market now).2.2.forget (f.slice now symbols).2) := by
  refine ⟨(r.resolve now).2.kernel.tracked.dataSymbols, rfl, ?_⟩
  -- The universe is resolved without the feed, and fills only look at the slice.
  have hresolve : (r.forget f).resolve now = ((r.resolve now).1, (r.resolve now).2.forget f) := rfl
  have hobserve : ∀ q : RunState S.journaled sel, q.feed = r.feed →
      (q.forget f).observe now = ((q.observe now).1,
        (q.observe now).2.forget (f.slice now q.kernel.tracked.dataSymbols).2) := by
    intro q hq
    unfold observe
    have hsame : ((q.forget f).feed.slice now (q.forget f).kernel.tracked.dataSymbols).1 =
        (q.feed.slice now q.kernel.tracked.dataSymbols).1 := by
      rw [hq]
      exact hslice _
    simp only [hsame]
    rfl
  unfold market
  simp only [hresolve, hobserve (r.resolve now).2 rfl]
  rfl

/-- If the feeds give the same slice, the step is the same, and each feed has read its own slice. -/
theorem step_forget_of_slice {f : Feed} {r : RunState S.journaled sel} {now : Instant}
    (hslice : ∀ symbols, (f.slice now symbols).1 = (r.feed.slice now symbols).1) :
    ∃ symbols, (r.forget f).step now = (r.step now).map (forgetBoth (f.slice now symbols).2) ∧
      ∀ r' failure, r.step now = .ok (r', failure) → r'.feed = (r.feed.slice now symbols).2 := by
  obtain ⟨symbols, hfeed, hmarket⟩ := market_forget hslice
  refine ⟨symbols, ?_, fun r' failure hstep => (step_feed hstep).trans hfeed⟩
  unfold step phases
  rw [hmarket]
  simp only [notify_forget]
  cases (r.market now).2.2.notify now (r.market now).1 (r.market now).2.1 with
  | mk q failure =>
      cases failure with
      | some failure => rfl
      | none =>
          simp only [forgetBoth, dispatch_forget]
          cases q.dispatch now <;> rfl

/-- A step is followed by the journaled one, up to a moment to which the feeds agree; and then they
agree after it. -/
theorem step_forget {moment : DateTime} {f : Feed} {r : RunState S.journaled sel} {now : Instant}
    (h : Feed.Agree moment r.feed f) (hnow : now.time ≤ moment) :
    ∃ f', (r.forget f).step now = (r.step now).map (forgetBoth f') ∧
      ∀ r' failure, r.step now = .ok (r', failure) → Feed.Agree moment r'.feed f' := by
  obtain ⟨symbols, hstep, hfeed⟩ := step_forget_of_slice fun symbols => (h.slice hnow symbols).1
  refine ⟨_, hstep, fun r' failure hdone => ?_⟩
  rw [hfeed r' failure hdone]
  exact (h.slice hnow symbols).2

/-- An initialization is followed by the journaled one. -/
theorem launch_forget (f : Feed) (r : RunState S.journaled sel) (now : Instant) :
    (r.forget f).launch now = forgetBoth f (r.launch now) := by
  have hcall : (r.forget f).call now "initialize" S.onStart =
      forgetBoth f (r.call now "initialize" S.journaled.onStart) :=
    call_forget (fun state => Program.journaled_erases _ _ _) f r now _
  unfold launch
  rw [hcall]
  rfl

end RunState

namespace RunProgress

variable {S : Strategy} {sel : Selector}

/-- The progress of a journaled run without the journal, and with another feed. -/
def forget (f : Feed) (p : RunProgress S.journaled sel) : RunProgress S sel :=
  ⟨p.state.forget f, p.steps, p.curve, p.failure⟩

/-- The progress with another feed. -/
def withFeed (f : Feed) (p : RunProgress S sel) : RunProgress S sel :=
  { p with state := { p.state with feed := f } }

/-- A step of a run is followed by the journaled one. -/
theorem step_forget {moment : DateTime} {f : Feed} {p : RunProgress S.journaled sel}
    {clock : Clock} {now : Instant} (h : Feed.Agree moment p.state.feed f)
    (hnow : now.time ≤ moment) :
    ∃ f', (p.forget f).step clock now = (p.step clock now).map (forget f') ∧
      ∀ p', p.step clock now = .ok p' → Feed.Agree moment p'.state.feed f' := by
  obtain ⟨f', hstep, hagree⟩ := RunState.step_forget h hnow
  refine ⟨f', ?_, fun p' hp' => hagree _ _ (step_eq hp').1⟩
  have hforget : (p.forget f).state.step now = (p.state.step now).map (RunState.forgetBoth f') :=
    hstep
  unfold step
  rw [hforget]
  cases p.state.step now with
  | error o => rfl
  | ok result =>
      obtain ⟨r, failure⟩ := result
      cases failure <;> rfl

/-- The steps of a clock are followed by the journaled ones, up to a moment to which the feeds
agree. -/
theorem loop_forget {moment : DateTime} {f : Feed} {p : RunProgress S.journaled sel} {fuel : Nat}
    {clock : Clock} (h : Feed.Agree moment p.state.feed f)
    (hclock : ∀ now ∈ clock.instants fuel, now.time ≤ moment) :
    ∃ f', loop fuel clock (p.forget f) = (loop fuel clock p).map (forget f') := by
  -- The other feed changes with each step; that it agrees is what carries the induction.
  induction fuel generalizing p f clock with
  | zero => exact ⟨f, rfl⟩
  | succ fuel ih =>
      rw [loop, loop]
      have hfailure : (p.forget f).failure = p.failure := rfl
      rw [hfailure]
      by_cases hfailed : p.failure.isSome
      · rw [if_pos hfailed, if_pos hfailed]
        exact ⟨f, rfl⟩
      · rw [if_neg hfailed, if_neg hfailed]
        rw [Clock.instants] at hclock
        cases hadvance : clock.advance with
        | mk next rest =>
            rw [hadvance] at hclock
            cases next with
            | none => exact ⟨f, rfl⟩
            | some now =>
                obtain ⟨hnow, hrest⟩ := List.forall_mem_cons.1 hclock
                obtain ⟨f', hstep, hagree⟩ :
                  ∃ f', (p.forget f).step rest now = (p.step rest now).map (forget f') ∧
                    ∀ p', p.step rest now = .ok p' → Feed.Agree moment p'.state.feed f' :=
                  step_forget h hnow
                simp only [hstep]
                cases hp : p.step rest now with
                | error o => exact ⟨f, rfl⟩
                | ok p' => exact ih (hagree p' hp) hrest

end RunProgress

namespace Engine

/-- The journal of a run after its first steps, at most `steps` of them. -/
def journal (e : Engine) (S : Strategy) (steps : Nat) :
    Except RunError (List (JournalEntry S.Code)) :=
  (e.after S.journaled steps).map fun p => p.state.strategy.2

variable {e : Engine} {other : SeriesLookup} {moment : DateTime} {steps : Nat}

/-- A run is followed by the journaled run with a source that has the same points up to its last
instant. -/
theorem after_forget (hsorted : ∀ symbol, TimeSorted ((e.prices symbol).getD []))
    (hsorted' : ∀ symbol, TimeSorted ((other symbol).getD []))
    (hagree : ∀ symbol, upTo moment ((other symbol).getD []) =
      upTo moment ((e.prices symbol).getD []))
    (hsteps : ∀ now ∈ e.instants steps, now.time ≤ moment) (S : Strategy) :
    ∃ feed, ({ e with prices := other } : Engine).after S steps =
      (e.after S.journaled steps).map (RunProgress.forget feed) := by
  let feed := Feed.start other e.settings.calendar e.settings.normalization
  have hfeeds : Feed.Agree moment (e.begin S.journaled).state.feed feed :=
    Feed.Agree.start e.settings.calendar e.settings.normalization hsorted hsorted' hagree
  have hbegin : ({ e with prices := other } : Engine).begin S =
      (e.begin S.journaled).forget feed := by
    have hlaunch := RunState.launch_forget feed
      (RunState.start S.journaled e.selector e.settings e.prices e.contracts)
      (.startOf e.settings.start e.settings.resolution)
    exact congrArg (fun result : RunState S e.selector × Option RunFailure =>
      (⟨result.1, 0, [], result.2⟩ : RunProgress S e.selector)) hlaunch
  unfold after
  have hspec : S.journaled.spec = S.spec := rfl
  rw [hspec]
  cases StrategyHost.checkSpec S.spec e.settings.resolution with
  | error failure => exact ⟨feed, rfl⟩
  | ok =>
      unfold instants at hsteps
      have hclock' : ({ e with prices := other } : Engine).clock = e.clock := rfl
      rw [hclock']
      cases hclock : e.clock with
      | error failure => exact ⟨feed, rfl⟩
      | ok clock =>
          rw [hclock] at hsteps
          obtain ⟨feed', hloop⟩ := RunProgress.loop_forget hfeeds hsteps
          refine ⟨feed', ?_⟩
          simp only [hbegin, hloop]
          cases RunProgress.loop steps clock (e.begin S.journaled) <;> rfl

/-- Runs whose sources have the same points up to their last instant are the same but for their
feeds: both are followed by the same journaled run. -/
theorem after_withFeed (hsorted : ∀ symbol, TimeSorted ((e.prices symbol).getD []))
    (hsorted' : ∀ symbol, TimeSorted ((other symbol).getD []))
    (hagree : ∀ symbol, upTo moment ((other symbol).getD []) =
      upTo moment ((e.prices symbol).getD []))
    (hsteps : ∀ now ∈ e.instants steps, now.time ≤ moment) (S : Strategy) :
    ∃ feed, ({ e with prices := other } : Engine).after S steps =
      (e.after S steps).map (RunProgress.withFeed feed) := by
  -- A source agrees with itself, so the run with its own source has the same journaled run.
  obtain ⟨own, hown⟩ := after_forget hsorted hsorted (fun _ => rfl) hsteps S
  obtain ⟨feed, hother⟩ := after_forget hsorted hsorted' hagree hsteps S
  have hown : e.after S steps = (e.after S.journaled steps).map (RunProgress.forget own) := hown
  refine ⟨feed, ?_⟩
  rw [hother, hown]
  cases e.after S.journaled steps <;> rfl

/-- Take two sources of sorted series that have the same points up to a moment. Through every step
up to it a run with one source is the run with the other but for the feed, for every strategy; the
journals of its callbacks are the same, where journaling changes nothing about a run; and if this
was the last step the results are the same. -/
theorem no_look_ahead (hsorted : ∀ symbol, TimeSorted ((e.prices symbol).getD []))
    (hsorted' : ∀ symbol, TimeSorted ((other symbol).getD []))
    (hagree : ∀ symbol, upTo moment ((other symbol).getD []) =
      upTo moment ((e.prices symbol).getD []))
    (hsteps : ∀ now ∈ e.instants steps, now.time ≤ moment) (S : Strategy) :
    (∃ feed, ({ e with prices := other } : Engine).after S steps =
      (e.after S steps).map (RunProgress.withFeed feed)) ∧
    ({ e with prices := other } : Engine).journal S steps = e.journal S steps ∧
    (∃ feed, e.after S steps = (e.after S.journaled steps).map (RunProgress.forget feed)) ∧
    (steps = e.span → ({ e with prices := other } : Engine).run = e.run) := by
  refine ⟨after_withFeed hsorted hsorted' hagree hsteps S, ?_,
    after_forget hsorted hsorted (fun _ => rfl) hsteps S, fun hspan => ?_⟩
  · obtain ⟨feed, hafter⟩ := after_withFeed hsorted hsorted' hagree hsteps S.journaled
    unfold journal
    rw [hafter]
    cases e.after S.journaled steps <;> rfl
  · subst hspan
    have hhost : ({ e with prices := other } : Engine).host.strategy = e.host.strategy := rfl
    unfold run
    rw [hhost]
    cases e.host.strategy with
    | error failure => rfl
    | ok T =>
        obtain ⟨feed, hafter⟩ := after_withFeed hsorted hsorted' hagree hsteps T
        have hprogress : ({ e with prices := other } : Engine).progress T =
            (e.progress T).map (RunProgress.withFeed feed) := hafter
        simp only [hprogress]
        cases e.progress T <;> rfl

/-- The strategy that buys 10 and holds them. -/
def holder : Strategy := Builtin.buyAndHold ⟨.equity "SPY", 10⟩

/-- A run with prints at 100 and 110 on its first two dates and 120 on the third. -/
def rising : Engine := .sample holder (.equity "SPY") [100000000, 110000000, 120000000]

/-- A source with the prints of the first two dates; the third date falls to 90, and another symbol
is printed for the first time. -/
def falling : SeriesLookup := fun symbol =>
  if symbol = .equity "SPY" then some (samplePrints symbol [100000000, 110000000, 90000000])
  else if symbol = .equity "QQQ" then
    some [⟨symbol, .midnight RunSettings.sampleStop, 50000000, none, PricePoint.unitFactor⟩]
  else none

/-- The second date of the sample week. -/
def secondDate : DateTime := .midnight ⟨735148, by decide, by decide⟩

/-- With both sources the run is the same through the second date; through the third it is not. -/
theorem rising_falling :
    (∃ feed, ({ rising with prices := falling } : Engine).after holder 2 =
      (rising.after holder 2).map (RunProgress.withFeed feed)) ∧
    ({ rising with prices := falling } : Engine).journal holder 2 = rising.journal holder 2 ∧
    (({ rising with prices := falling } : Engine).after holder 3).toOption.map
        RunProgress.curve ≠
      (rising.after holder 3).toOption.map RunProgress.curve := by
  have hsteps : ∀ now ∈ rising.instants 2, now.time ≤ secondDate := by decide +kernel
  have hsorted : ∀ symbol, TimeSorted ((rising.prices symbol).getD []) := by
    intro symbol
    by_cases hspy : symbol = .equity "SPY"
    · subst hspy
      unfold TimeSorted
      decide +kernel
    · have hnone : rising.prices symbol = none := if_neg hspy
      rw [hnone]
      exact .nil
  have hsorted' : ∀ symbol, TimeSorted ((falling symbol).getD []) := by
    intro symbol
    by_cases hspy : symbol = .equity "SPY"
    · subst hspy
      unfold TimeSorted
      decide +kernel
    · by_cases hqqq : symbol = .equity "QQQ"
      · subst hqqq
        unfold TimeSorted
        decide +kernel
      · have hnone : falling symbol = none := (if_neg hspy).trans (if_neg hqqq)
        rw [hnone]
        exact .nil
  have hagree : ∀ symbol, upTo secondDate ((falling symbol).getD []) =
      upTo secondDate ((rising.prices symbol).getD []) := by
    intro symbol
    by_cases hspy : symbol = .equity "SPY"
    · subst hspy
      decide +kernel
    · have hnone : rising.prices symbol = none := if_neg hspy
      by_cases hqqq : symbol = .equity "QQQ"
      · subst hqqq
        decide +kernel
      · have hnone' : falling symbol = none := (if_neg hspy).trans (if_neg hqqq)
        rw [hnone, hnone']
  have hsame := no_look_ahead hsorted hsorted' hagree hsteps holder
  exact ⟨hsame.1, hsame.2.1, by decide +kernel⟩

end Engine

end MarketReplay
