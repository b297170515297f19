import MarketReplay.Proofs.Run.Journals
import MarketReplay.Proofs.Run.OrderSteps
import MarketReplay.Proofs.Strategy.BuyingPower

/-!
# Runs under buying power policies

As long as nothing shows that cash was short (`RunState.Unstrained`), a run is the same under every
policy: in its callbacks, in the replies to its commands, and in its result
(`Engine.policies_agree`).
-/

namespace MarketReplay

/-- Whether a reply in a callback says that a request was refused because cash is short. -/
def JournalEntry.refusesFunds {κ : Type} (entry : JournalEntry κ) : Bool :=
  entry.exchanges.any Exchange.refusesFunds

namespace RunState

variable {S : Strategy} {sel : Selector}

/-- The state under another policy. -/
def underPolicy (π : BuyingPowerPolicy) (r : RunState S sel) : RunState S sel :=
  { r with kernel := r.kernel.underPolicy π }

/-- What a phase gives, under another policy. -/
def underPolicyBoth (π : BuyingPowerPolicy) (result : RunState S sel × Option RunFailure) :
    RunState S sel × Option RunFailure :=
  (result.1.underPolicy π, result.2)

/-- Whether nothing shows so far that cash was short: no refusal, or no warning, as the policy of
the book says. -/
def Unstrained (r : RunState S.journaled sel) : Prop :=
  match r.kernel.book.policy with
  | .enforce => ∀ entry ∈ r.journal, ¬ entry.refusesFunds
  | .warnOnly => r.kernel.book.warnings = []

/-- If nothing shows at last, nothing has shown before. -/
theorem Unstrained.of_warned {r r' : RunState S.journaled sel} (h : r'.Unstrained)
    (hbook : r.kernel.book.Warned r'.kernel.book)
    (hjournal : ∀ entry ∈ r.journal, entry ∈ r'.journal) : r.Unstrained := by
  unfold Unstrained at h ⊢
  rw [hbook.policy_eq] at h
  cases hpolicy : r.kernel.book.policy with
  | enforce =>
      rw [hpolicy] at h
      exact fun entry hentry => h entry (hjournal entry hentry)
  | warnOnly =>
      rw [hpolicy] at h
      have hlength := hbook.length_le
      rw [h] at hlength
      exact List.length_eq_zero_iff.1 (Nat.le_zero.1 hlength)

/-- If nothing shows at last, no callback has shown that cash was short. -/
theorem Unstrained.not_shows {r r' : RunState S.journaled sel} (h : r'.Unstrained)
    (hbook : r.kernel.book.Warned r'.kernel.book) {entry : JournalEntry S.Code}
    (hentry : entry ∈ r'.journal) :
    ¬ r.kernel.book.Shows entry.refusesFunds r'.kernel.book := by
  intro hshows
  unfold Unstrained at h
  unfold OrderBook.Shows at hshows
  rw [hbook.policy_eq] at h
  cases hpolicy : r.kernel.book.policy with
  | enforce =>
      rw [hpolicy] at h hshows
      exact h entry hentry hshows
  | warnOnly =>
      rw [hpolicy] at h hshows
      rw [h] at hshows
      exact Nat.not_lt_zero _ hshows

/-! ### Phases -/

/-- Whether the policy does not matter to a phase from a state, if nothing shows after it that cash
was short; and then nothing has shown before it. -/
def Neutral (f : RunState S.journaled sel → RunState S.journaled sel × Option RunFailure)
    (r : RunState S.journaled sel) : Prop :=
  (f r).1.Unstrained → r.Unstrained ∧ ∀ π, f (r.underPolicy π) = underPolicyBoth π (f r)

/-- One phase after another that does not fail. -/
def andThen (f g : RunState S.journaled sel → RunState S.journaled sel × Option RunFailure)
    (r : RunState S.journaled sel) : RunState S.journaled sel × Option RunFailure :=
  match f r with
  | (r', some failure) => (r', some failure)
  | (r', none) => g r'

variable {f g : RunState S.journaled sel → RunState S.journaled sel × Option RunFailure}
  {r : RunState S.journaled sel}

/-- A phase that does nothing. -/
theorem neutral_skip : Neutral (fun r => (r, none)) r := fun h => ⟨h, fun _ => rfl⟩

theorem Neutral.andThen (hf : Neutral f r) (hg : ∀ r', Neutral g r') :
    Neutral (RunState.andThen f g) r := by
  intro h
  unfold Neutral at hf
  unfold RunState.andThen at h ⊢
  cases hresult : f r with
  | mk r' failure =>
      rw [hresult] at h hf
      cases failure with
      | some failure =>
          obtain ⟨hbefore, hsame⟩ := hf h
          refine ⟨hbefore, fun π => ?_⟩
          rw [hsame π]
          rfl
      | none =>
          obtain ⟨hmiddle, hrest⟩ := hg r' h
          obtain ⟨hbefore, hsame⟩ := hf hmiddle
          refine ⟨hbefore, fun π => ?_⟩
          rw [hsame π]
          exact hrest π

/-- What a journaled callback makes of a state. -/
theorem call_logged (r : RunState S.journaled sel) (now : Instant) (label : String)
    {occasion : Occasion S.Code} {p : Program S.Code (Outcome S.State)}
    {program : S.journaled.State → Program S.Code (Outcome S.journaled.State)}
    (hprogram : program r.strategy = p.journaled occasion r.journal) :
    r.call now label program =
      let ((outcome, exchanges), kernel) := (p.logged []).run now r.kernel
      ({ r with
          kernel
          strategy := (outcome.state,
            r.journal ++ [⟨now, occasion, exchanges, outcome.error⟩]) },
        outcome.error.map fun e => ⟨now, label, e.text⟩) := by
  let finish := fun result : Outcome S.journaled.State × Kernel S.journaled.Code =>
    (({ r with kernel := result.2, strategy := result.1.state } : RunState S.journaled sel),
      result.1.error.map fun e => (⟨now, label, e.text⟩ : RunFailure))
  have hrun := (congrArg (fun q => Program.run now q r.kernel) hprogram).trans
    (p.run_journaled occasion r.journal now r.kernel)
  exact congrArg finish hrun

/-- The policy does not matter to a journaled callback. -/
theorem call_neutral (now : Instant) (label : String) {occasion : Occasion S.Code}
    {p : Program S.Code (Outcome S.State)}
    {program : S.journaled.State → Program S.Code (Outcome S.journaled.State)}
    (hprogram : program r.strategy = p.journaled occasion r.journal) :
    Neutral (fun r => r.call now label program) r := by
  intro h
  have hwarned : r.kernel.book.Warned (r.call now label program).1.kernel.book :=
    call_book (OrderBook.warned_keptAt now r.kernel.book) ⟨rfl, Nat.le_refl _⟩ label program
  have hcall := r.call_logged now label hprogram
  have hjournal : ∀ entry ∈ r.journal, entry ∈ (r.call now label program).1.journal := by
    intro entry hentry
    rw [hcall]
    exact List.mem_append_left _ hentry
  refine ⟨h.of_warned hwarned hjournal, fun π => ?_⟩
  rcases p.logged_agrees_or now [] r.kernel with hagrees | hshows
  · have hother := (r.underPolicy π).call_logged now label hprogram
    have hrun : (p.logged []).run now (r.underPolicy π).kernel =
        (((p.logged []).run now r.kernel).1, ((p.logged []).run now r.kernel).2.underPolicy π) :=
      hagrees π
    rw [hrun] at hother
    show (r.underPolicy π).call now label program = underPolicyBoth π (r.call now label program)
    rw [hother, hcall]
    rfl
  · have hentry : (⟨now, occasion, ((p.logged []).run now r.kernel).1.2,
        ((p.logged []).run now r.kernel).1.1.error⟩ : JournalEntry S.Code) ∈
          (r.call now label program).1.journal := by
      rw [hcall]
      exact List.mem_concat_self
    refine absurd ?_ (h.not_shows hwarned hentry)
    show r.kernel.book.Shows _ (r.call now label program).1.kernel.book
    rw [hcall]
    exact hshows

/-- The policy does not matter to a callback that does nothing. -/
theorem idle_neutral (now : Instant) (label : String)
    {program : S.journaled.State → Program S.Code (Outcome S.journaled.State)}
    (hprogram : program r.strategy = Strategy.idle r.strategy) :
    Neutral (fun r => r.call now label program) r := by
  have hcall : ∀ q : RunState S.journaled sel, q.strategy = r.strategy →
      q.call now label program = (q, none) := by
    intro q hq
    unfold call
    rw [hq, hprogram, ← hq]
    rfl
  intro h
  have hdone := hcall r rfl
  simp only [hdone] at h
  refine ⟨h, fun π => ?_⟩
  show (r.underPolicy π).call now label program = underPolicyBoth π (r.call now label program)
  rw [hcall (r.underPolicy π) rfl, hdone]
  rfl

/-- The policy does not matter to what is told of changes. -/
theorem notifyChanges_neutral (now : Instant) (changes : Changes) (r : RunState S.journaled sel) :
    Neutral (fun r => r.notifyChanges now changes) r := by
  unfold notifyChanges
  by_cases hempty : changes.isEmpty
  · simp only [if_pos hempty]
    exact neutral_skip
  · simp only [if_neg hempty]
    exact call_neutral (r := { r with merged := r.merged.merge changes }) now _ rfl

/-- The policy does not matter to what is told of data. -/
theorem notifyData_neutral (now : Instant) (slice : DataSlice) (r : RunState S.journaled sel) :
    Neutral (fun r => r.notifyData now slice) r := by
  unfold notifyData
  by_cases hempty : slice.isEmpty
  · simp only [if_pos hempty]
    exact neutral_skip
  · simp only [if_neg hempty]
    exact call_neutral now _ rfl

/-- The policy does not matter to what is told of changes and data. -/
theorem notify_neutral (now : Instant) (changes : Changes) (slice : DataSlice)
    (r : RunState S.journaled sel) : Neutral (fun r => r.notify now changes slice) r := by
  have hnotify : (fun r : RunState S.journaled sel => r.notify now changes slice) =
      RunState.andThen (fun r => r.notifyChanges now changes)
        (fun r => r.notifyData now slice) := by
    funext r
    unfold notify RunState.andThen
    beta_reduce
    cases r.notifyChanges now changes with
    | mk r' failure => cases failure <;> rfl
  rw [hnotify]
  exact (notifyChanges_neutral now changes r).andThen (notifyData_neutral now slice)

/-- The policy does not matter to a delivery. -/
theorem deliver_neutral (now : Instant) (d : Delivery) (r : RunState S.journaled sel) :
    Neutral (fun r => r.deliver now d) r := by
  cases d with
  | event e =>
      exact call_neutral (r := { r with delivered := r.delivered ++ [e] }) now "on_order_event" rfl
  | fire due =>
      -- Label and action are the scheduler's, which has no policy.
      show Neutral (fun q => q.call now (r.scheduler.label due)
        (Scheduler.fire S.journaled r.scheduler due)) r
      cases hentry : Scheduler.entry? (κ := S.journaled.Code) r.scheduler due.entry with
      | none =>
          refine idle_neutral now _ ?_
          simp only [Scheduler.fire, hentry]
          rfl
      | some entry =>
          have hfire : Scheduler.fire S.journaled r.scheduler due r.strategy =
              (S.onDue r.strategy.1 entry.action).journaled entry.action.occasion r.journal := by
            simp only [Scheduler.fire, hentry]
            cases entry.action <;> rfl
          exact call_neutral (S := S) now _ hfire

/-- The policy does not matter to deliveries in turn. -/
theorem deliverAll_neutral (now : Instant) (deliveries : List Delivery)
    (r : RunState S.journaled sel) : Neutral (deliverAll now deliveries) r := by
  induction deliveries generalizing r with
  | nil => exact neutral_skip
  | cons d rest ih =>
      have hdeliver : deliverAll now (d :: rest) = RunState.andThen
          (fun r : RunState S.journaled sel => r.deliver now d) (deliverAll now rest) := by
        funext r
        rw [deliverAll]
        unfold RunState.andThen
        beta_reduce
        cases r.deliver now d with
        | mk r' failure => cases failure <;> rfl
      rw [hdeliver]
      exact (deliver_neutral now d r).andThen ih

/-! ### Steps -/

/-- The policy does not matter to a step, if nothing shows after it that cash was short. -/
theorem step_underPolicy {r' : RunState S.journaled sel} {now : Instant}
    {failure : Option RunFailure} (h : r.step now = .ok (r', failure)) (hr' : r'.Unstrained) :
    r.Unstrained ∧ ∀ π, (r.underPolicy π).step now = .ok (r'.underPolicy π, failure) := by
  -- The market's part of a step looks at no policy, nor does the installation of schedules.
  have hmarket : ∀ π, (r.underPolicy π).market now =
      ((r.market now).1, (r.market now).2.1, (r.market now).2.2.underPolicy π) := fun _ => rfl
  have hnotify := notify_neutral now (r.market now).1 (r.market now).2.1 (r.market now).2.2
  unfold Neutral at hnotify
  beta_reduce at hnotify
  obtain ⟨q, f, hfailed, rfl, rfl⟩ | ⟨q, q', hdone, hdispatch, rfl⟩ := step_cases h
  · rw [hfailed] at hnotify
    obtain ⟨hbefore, hsame⟩ := hnotify hr'
    refine ⟨hbefore, fun π => ?_⟩
    unfold step phases
    rw [hmarket]
    simp only [hsame]
    rfl
  · rw [hdone] at hnotify
    obtain ⟨due, scheduler, hdue, hresult⟩ := dispatch_eq hdispatch
    have hdeliver := deliverAll_neutral now (interleave q.kernel.book.drain.1 due)
      (q.drained scheduler)
    unfold Neutral at hdeliver
    rw [hresult] at hdeliver
    obtain ⟨hdrained, hdelivered⟩ := hdeliver hr'
    obtain ⟨hbefore, hsame⟩ := hnotify hdrained
    refine ⟨hbefore, fun π => ?_⟩
    have hdispatch' : (q.underPolicy π).dispatch now = .ok (q'.underPolicy π, failure) := by
      have hdue' : (q.underPolicy π).scheduler.due now.time = .ok (due, scheduler) := hdue
      unfold dispatch
      simp only [hdue']
      exact congrArg Except.ok (hdelivered π)
    unfold step phases
    rw [hmarket]
    simp only [hsame]
    show Except.map _ ((q.underPolicy π).dispatch now) = _
    rw [hdispatch']
    rfl

end RunState

/-! ### Runs -/

namespace RunProgress

variable {S : Strategy} {sel : Selector}

/-- The progress under another policy. -/
def underPolicy (π : BuyingPowerPolicy) (p : RunProgress S sel) : RunProgress S sel :=
  { p with state := p.state.underPolicy π }

/-- The policy does not matter to a step of a run, if nothing shows after it. -/
theorem step_underPolicy {p p' : RunProgress S.journaled sel} {clock : Clock} {now : Instant}
    (h : p.step clock now = .ok p') (hp' : p'.state.Unstrained) :
    p.state.Unstrained ∧ ∀ π, (p.underPolicy π).step clock now = .ok (p'.underPolicy π) := by
  unfold step at h ⊢
  cases hresult : p.state.step now with
  | error o =>
      rw [hresult] at h
      cases h
  | ok result =>
      obtain ⟨r', failure⟩ := result
      rw [hresult] at h
      have hstate : ∀ π, (p.underPolicy π).state.step now =
          (p.state.underPolicy π).step now := fun _ => rfl
      simp only [hstate]
      cases failure with
      | none =>
          obtain rfl := Except.ok.inj h
          obtain ⟨hbefore, hsame⟩ := RunState.step_underPolicy hresult hp'
          refine ⟨hbefore, fun π => ?_⟩
          rw [hsame π]
          rfl
      | some failure =>
          obtain rfl := Except.ok.inj h
          obtain ⟨hbefore, hsame⟩ := RunState.step_underPolicy hresult hp'
          refine ⟨hbefore, fun π => ?_⟩
          rw [hsame π]
          rfl

/-- The policy does not matter to the steps of a clock, if nothing shows after them. -/
theorem loop_underPolicy {fuel : Nat} {clock : Clock} {p p' : RunProgress S.journaled sel}
    (h : loop fuel clock p = .ok p') (hp' : p'.state.Unstrained) :
    p.state.Unstrained ∧ ∀ π, loop fuel clock (p.underPolicy π) = .ok (p'.underPolicy π) := by
  induction fuel generalizing clock p with
  | zero =>
      obtain rfl := Except.ok.inj h
      exact ⟨hp', fun _ => rfl⟩
  | succ fuel ih =>
      rcases loop_succ h with ⟨hstopped, rfl, -⟩ | ⟨now, rest, q, hnone, hadvance, hstep, hloop, -⟩
      · exact ⟨hp', fun π => (loop_stopped (p := p.underPolicy π) hstopped _).1⟩
      · obtain ⟨hmiddle, hrest⟩ := ih hloop
        obtain ⟨hbefore, hsame⟩ := step_underPolicy hstep hmiddle
        refine ⟨hbefore, fun π => ?_⟩
        rw [(loop_stepped (p := p.underPolicy π) hnone hadvance (hsame π) fuel).1]
        exact hrest π

end RunProgress

/-- The result of the same run under another policy: policy and identity are others. -/
def RunResult.underPolicy (π : BuyingPowerPolicy) (r : RunResult) : RunResult :=
  { r with
    replayId := MarketReplay.replayId r.strategy { r.settings with buyingPower := π }
    settings := { r.settings with buyingPower := π } }

namespace Engine

/-- The engine with another policy in its settings. -/
abbrev underPolicy (π : BuyingPowerPolicy) (e : Engine) : Engine :=
  { e with settings := { e.settings with buyingPower := π } }

variable {e : Engine} {S : Strategy} {fuel : Nat}

/-- The policy does not matter to a run, if nothing shows in the end that cash was short. -/
theorem after_underPolicy {p : RunProgress S.journaled e.selector}
    (h : e.after S.journaled fuel = .ok p) (hp : p.state.Unstrained) (π : BuyingPowerPolicy) :
    (e.underPolicy π).after S.journaled fuel = .ok (p.underPolicy π) := by
  have hbegin : (e.begin S.journaled).state.Unstrained →
      (e.underPolicy π).begin S.journaled = (e.begin S.journaled).underPolicy π := by
    intro hunstrained
    let start := RunState.start S.journaled e.selector e.settings e.prices e.contracts
    have hstart : S.journaled.onStart start.strategy =
        (S.onStart S.initial).journaled .start start.journal := rfl
    obtain ⟨-, hsame⟩ := RunState.call_neutral
      (.startOf e.settings.start e.settings.resolution) "initialize" hstart hunstrained
    exact congrArg (fun result : RunState S.journaled e.selector × Option RunFailure =>
      (⟨result.1.install, 0, [], result.2⟩ : RunProgress S.journaled e.selector)) (hsame π)
  obtain ⟨hspec, clock, hclock, hloop⟩ := after_eq_ok.1 h
  obtain ⟨hfirst, hsame⟩ := RunProgress.loop_underPolicy hloop hp
  exact after_eq_ok.2 ⟨hspec, clock, hclock, hbegin hfirst ▸ hsame π⟩

/-- The book of a run has the policy of the settings. -/
theorem policy_eq {p : RunProgress S e.selector} (h : e.after S fuel = .ok p) :
    p.state.kernel.book.policy = e.settings.buyingPower := by
  let start := OrderBook.start e.settings.calendar e.settings.buyingPower
  have hwarned : start.Warned p.state.kernel.book :=
    (after_book ⟨rfl, Nat.le_refl _⟩ (fun now => OrderBook.warned_keptAt now start)
      (fun _ _ _ hb => ⟨hb.policy_eq, hb.length_le⟩)
      (fun _ hb => ⟨hb.policy_eq, hb.length_le⟩) h).1
  exact hwarned.policy_eq

/-- A run whose policy is to refuse has no warnings. -/
theorem warnings_eq_nil {p : RunProgress S e.selector} (h : e.after S fuel = .ok p)
    (hpolicy : e.settings.buyingPower = .enforce) : p.state.kernel.book.warnings = [] :=
  (after_book ⟨hpolicy, rfl⟩ OrderBook.unwarned_keptAt (fun _ _ _ hb => hb) (fun _ hb => hb) h).1.2

/-- What shows in the end of a journaled run that cash was never short. -/
theorem unstrained_iff {p : RunProgress S.journaled e.selector}
    (h : e.after S.journaled fuel = .ok p) : p.state.Unstrained ↔
      match e.settings.buyingPower with
      | .enforce => ∀ entry ∈ p.state.journal, ¬ entry.refusesFunds
      | .warnOnly => p.state.kernel.book.warnings = [] := by
  unfold RunState.Unstrained
  rw [policy_eq h]

/-- A run of a strategy with its result, and the journal of its callbacks. -/
structure Gives (e : Engine) (S : Strategy) (result : RunResult)
    (journal : List (JournalEntry S.Code)) : Prop where
  strategy_eq : e.host.strategy = .ok S
  run_eq : e.run = .ok result
  journal_eq : e.journal S e.span = .ok journal

/-- Result and journal are those of the progress of the journaled run. -/
theorem Gives.exists_after {result : RunResult} {journal : List (JournalEntry S.Code)}
    (h : e.Gives S result journal) : ∃ p, e.after S.journaled e.span = .ok p ∧
      p.state.journal = journal ∧ result = e.result S p.unjournaled := by
  have hjournal := h.journal_eq
  unfold Engine.journal at hjournal
  obtain ⟨T, q, hT, hq, hresult⟩ := Engine.run_eq h.run_eq
  rw [h.strategy_eq] at hT
  obtain rfl := Except.ok.inj hT
  rw [after_unjournaled] at hq
  cases hp : e.after S.journaled e.span with
  | error failure =>
      rw [hp] at hq
      cases hq
  | ok p =>
      rw [hp] at hq hjournal
      obtain rfl := Except.ok.inj hq
      exact ⟨p, rfl, Except.ok.inj hjournal, hresult⟩

/-- The progress of the journaled run gives result and journal. -/
theorem gives_of_after (hS : e.host.strategy = .ok S) {p : RunProgress S.journaled e.selector}
    (h : e.after S.journaled e.span = .ok p) :
    e.Gives S (e.result S p.unjournaled) p.state.journal := by
  refine ⟨hS, ?_, ?_⟩
  · have hprogress : e.progress S = .ok p.unjournaled := by
      unfold progress
      rw [after_unjournaled, h]
      rfl
    unfold run
    rw [hS]
    simp only [hprogress]
    rfl
  · unfold Engine.journal
    rw [h]
    rfl

/-- If nothing shows that cash was short, a run gives the same under another policy. -/
theorem Gives.underPolicy {p : RunProgress S.journaled e.selector}
    (hS : e.host.strategy = .ok S) (h : e.after S.journaled e.span = .ok p)
    (hp : p.state.Unstrained) (π : BuyingPowerPolicy) :
    (e.underPolicy π).Gives S ((e.result S p.unjournaled).underPolicy π) p.state.journal :=
  gives_of_after (e := e.underPolicy π) (p := p.underPolicy π) hS (after_underPolicy h hp π)

/-- Steps that cannot be taken, other than by an offset out of range, cannot be taken under any
policy. -/
theorem after_error_iff (e : Engine) (S : Strategy) (fuel : Nat) (π : BuyingPowerPolicy)
    {failure : RunError} (hfailure : ∀ o, failure ≠ .offset o) :
    (e.underPolicy π).after S fuel = .error failure ↔ e.after S fuel = .error failure := by
  -- Once it has started, a run only fails by an offset.
  have hstarted : ∀ (e : Engine) (clock : Clock),
      StrategyHost.checkSpec S.spec e.settings.resolution = .ok () → e.clock = .ok clock →
      e.after S fuel ≠ .error failure := by
    intro e clock hspec hclock h
    unfold after at h
    rw [hspec, hclock] at h
    simp only at h
    split at h
    · exact hfailure _ (Except.error.inj h).symm
    · cases h
  cases hspec : StrategyHost.checkSpec S.spec e.settings.resolution with
  | error refusal =>
      unfold after
      rw [hspec]
  | ok =>
      cases hclock : e.clock with
      | error refusal =>
          have hclock' : (e.underPolicy π).clock = .error refusal := hclock
          unfold after
          rw [hspec, hclock, hclock']
      | ok clock =>
          exact iff_of_false (hstarted (e.underPolicy π) clock hspec hclock)
            (hstarted e clock hspec hclock)

/-- A run that gives no result, other than by an offset out of range, gives none under any
policy. -/
theorem run_error_iff (e : Engine) (π : BuyingPowerPolicy) {failure : RunError}
    (hfailure : ∀ o, failure ≠ .offset o) :
    (e.underPolicy π).run = .error failure ↔ e.run = .error failure := by
  have hhost : (e.underPolicy π).host = e.host := rfl
  unfold run progress
  rw [hhost]
  cases e.host.strategy with
  | error failure => exact Iff.rfl
  | ok S =>
      exact map_eq_error_iff.trans
        ((e.after_error_iff S e.span π hfailure).trans map_eq_error_iff.symm)

/-- Take a run that only warns and ends without a warning: the run that refuses has the same
callbacks, with the same commands and replies, and the same result but for policy and identity. Take
a run that refuses, of which no reply says that a request was refused because cash is short: the run
that only warns has the same callbacks and the same result likewise, without a warning. Journaling
changes nothing about these runs, and a run that does not start does not start under any policy. -/
theorem policies_agree (e : Engine) (S : Strategy) (result : RunResult)
    (journal : List (JournalEntry S.Code)) :
    ((e.underPolicy .warnOnly).Gives S result journal → result.warnings = [] →
      (e.underPolicy .enforce).Gives S (result.underPolicy .enforce) journal) ∧
    ((e.underPolicy .enforce).Gives S result journal →
      (∀ entry ∈ journal, ¬ entry.refusesFunds) →
      (e.underPolicy .warnOnly).Gives S (result.underPolicy .warnOnly) journal ∧
        result.warnings = []) ∧
    (∀ π, (e.underPolicy π).after S e.span =
      ((e.underPolicy π).after S.journaled e.span).map RunProgress.unjournaled) ∧
    ∀ π failure, (∀ o, failure ≠ .offset o) →
      ((e.underPolicy π).run = .error failure ↔ e.run = .error failure) := by
  refine ⟨fun h hnone => ?_, fun h hnone => ?_, fun π => (e.underPolicy π).after_unjournaled S _,
    fun π failure hfailure => e.run_error_iff π hfailure⟩
  · obtain ⟨p, hp, rfl, rfl⟩ := h.exists_after
    exact Gives.underPolicy h.strategy_eq hp ((unstrained_iff hp).2 hnone) .enforce
  · obtain ⟨p, hp, rfl, rfl⟩ := h.exists_after
    have hwarnings : p.state.kernel.book.warnings = [] := warnings_eq_nil hp rfl
    exact ⟨Gives.underPolicy h.strategy_eq hp ((unstrained_iff hp).2 hnone) .warnOnly, hwarnings⟩

/-- The sample run without a strategy. -/
def deserted : Engine := { rising with host := .empty }

/-- The sample run that buys 10 and has the cash for it gives the same under both policies; without
a strategy it starts under none. -/
theorem rising_policies : ∃ result journal,
    (rising.underPolicy .warnOnly).Gives holder result journal ∧ result.warnings = [] ∧
    result.orders.map Order.status = [.filled] ∧
    (rising.underPolicy .enforce).Gives holder (result.underPolicy .enforce) journal ∧
    (∀ entry ∈ journal, ¬ entry.refusesFunds) ∧
    (rising.underPolicy .warnOnly).Gives holder
      ((result.underPolicy .enforce).underPolicy .warnOnly) journal ∧
    (deserted.underPolicy .warnOnly).run = .error (.host .noStrategyRegistered) := by
  have hrun : ((rising.underPolicy .warnOnly).after holder.journaled rising.span).toOption.map
      (fun p => (p.state.kernel.book.warnings, p.state.kernel.book.orders.map Order.status,
        p.state.journal.any JournalEntry.refusesFunds)) = some ([], [.filled], false) := by
    decide +kernel
  obtain ⟨p, hp, hvalues⟩ := Option.map_eq_some_iff.1 hrun
  obtain ⟨hwarnings, hrest⟩ := Prod.mk.inj hvalues
  obtain ⟨hfilled, hrefused⟩ := Prod.mk.inj hrest
  let result := (rising.underPolicy .warnOnly).result holder p.unjournaled
  have hgives : (rising.underPolicy .warnOnly).Gives holder result p.state.journal :=
    gives_of_after rfl (eq_ok_of_toOption hp)
  have hnone : ∀ entry ∈ p.state.journal, ¬ entry.refusesFunds := by
    simpa using hrefused
  have hother := (policies_agree rising holder result p.state.journal).1 hgives hwarnings
  have hback := (policies_agree rising holder _ p.state.journal).2.1 hother hnone
  have hdeserted := (policies_agree deserted holder result p.state.journal).2.2.2 .warnOnly
    (.host .noStrategyRegistered) nofun
  exact ⟨result, p.state.journal, hgives, hwarnings, hfilled, hother, hnone, hback.1,
    hdeserted.2 rfl⟩

end Engine

end MarketReplay
