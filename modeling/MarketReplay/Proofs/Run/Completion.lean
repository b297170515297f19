import MarketReplay.Proofs.Run.Chronology
import MarketReplay.Proofs.Schedule.Requests
import MarketReplay.Proofs.Strategy.Journal

/-!
# Runs that come to their end

Two things stop a run: a callback that fails, and a schedule whose offset is no span of time. A
strategy that does neither (`Strategy.Completes`) runs without a failure (`Engine.after_completes`),
journaled or not (`Strategy.Completes.journaled`). A run without a failure takes a step at every
instant of its clock (`Engine.after_unfailed`).
-/

namespace MarketReplay

section Programs

variable {κ : Type}

/-- The schedules that a command asks for. -/
def Command.asked (now : Instant) : Command κ → List (PendingSchedule κ)
  | .schedule rule action => [⟨rule, action, now.time⟩]
  | _ => []

/-- Whether a program comes to an outcome without error, whatever the replies to its commands, and
the offsets of all schedules that it asks for fit. -/
def Program.Completes {σ : Type} : Program κ (Outcome σ) → Prop
  | .done outcome => outcome.error = none
  | .perform c resume =>
    (∀ now, ∀ p ∈ c.asked now, p.rule.time.fits) ∧ ∀ reply, (resume reply).Completes

/-- A journaled program completes if the program does. -/
theorem Program.Completes.journaled {σ : Type} {p : Program κ (Outcome σ)} (h : p.Completes)
    (occasion : Occasion κ) (journal : List (JournalEntry κ)) :
    (p.journaled occasion journal).Completes := by
  refine ⟨fun now p hp => absurd hp List.not_mem_nil, fun reply => ?_⟩
  have hlogged : ∀ (q : Program κ (Outcome σ)) (log : List (Exchange κ)), q.Completes →
      Program.Completes ((q.logged log).bind fun result =>
        .done ⟨(result.1.state, journal ++ [⟨reply.1, occasion, result.2, result.1.error⟩]),
          result.1.error⟩) := by
    intro q
    induction q with
    | done outcome => exact fun _ hdone => hdone
    | perform c resume ih =>
        intro log hperform
        obtain ⟨hasked, hresume⟩ := hperform
        exact ⟨hasked, fun reply => ih reply _ (hresume reply)⟩
  exact hlogged p [] h

/-- A command adds the schedules that it asks for to those not yet installed. -/
theorem Command.execute_pending (now : Instant) (c : Command κ) (k : Kernel κ) :
    (c.execute now k).2.pending = k.pending ++ c.asked now := by
  have hsubscribe : ∀ result : Except UniverseError Universe,
      (k.subscribe result).2.pending = k.pending := fun result => by cases result <;> rfl
  have hsubmit : ∀ (q : Kernel κ) request, (q.submit now request).2.pending = q.pending := by
    intro q request
    unfold Kernel.submit
    split <;> rfl
  cases c with
  | schedule rule action => rfl
  | submit request => exact (hsubmit k request).trans (List.append_nil _).symm
  | liquidate target =>
      exact (Kernel.closeAll_keeps hsubmit _ _).trans (List.append_nil _).symm
  | cancel id =>
      simp only [Command.execute]
      split <;> exact (List.append_nil _).symm
  | addInstrument symbol => exact (hsubscribe _).trans (List.append_nil _).symm
  | addContract contract => exact (hsubscribe _).trans (List.append_nil _).symm
  | addDerivedContract underlying expiry right style =>
      refine Eq.trans ?_ (List.append_nil _).symm
      show (k.addDerivedContract now underlying expiry right style).2.pending = k.pending
      unfold Kernel.addDerivedContract
      split
      · rfl
      · rename_i contract _
        have hcontract := hsubscribe (k.tracked.addContract contract)
        split <;> rename_i hresult <;> rwa [hresult] at hcontract
  | removeInstrument symbol =>
      refine Eq.trans ?_ (List.append_nil _).symm
      show (k.removeInstrument now symbol).2.pending = k.pending
      unfold Kernel.removeInstrument
      split <;> rfl
  | optionChain | clock | security | securities | portfolio | order | openOrders =>
      exact (List.append_nil _).symm

/-- Whether the offsets of all schedules not yet installed fit. -/
def Kernel.Fits (k : Kernel κ) : Prop := ∀ p ∈ k.pending, p.rule.time.fits

/-- A program that completes has no error, and the offsets of its schedules fit. -/
theorem Program.Completes.run {σ : Type} {p : Program κ (Outcome σ)} (h : p.Completes)
    (now : Instant) {k : Kernel κ} (hk : k.Fits) :
    (p.run now k).1.error = none ∧ (p.run now k).2.Fits := by
  induction p generalizing k with
  | done outcome => exact ⟨h, hk⟩
  | perform c resume ih =>
      obtain ⟨hasked, hresume⟩ := h
      have hnext : (c.execute now k).2.Fits := by
        intro s hs
        rw [Command.execute_pending] at hs
        rcases List.mem_append.1 hs with hs | hs
        · exact hk s hs
        · exact hasked now s hs
      exact ih _ (hresume _) hnext

end Programs

/-- Whether every callback of a strategy completes. -/
structure Strategy.Completes (S : Strategy) : Prop where
  onStart : ∀ state, (S.onStart state).Completes
  onSecuritiesChanged : ∀ state changes, (S.onSecuritiesChanged state changes).Completes
  onData : ∀ state slice, (S.onData state slice).Completes
  onOrderEvent : ∀ state e, (S.onOrderEvent state e).Completes
  onScheduled : ∀ state name, (S.onScheduled state name).Completes
  onCallback : ∀ state code, (S.onCallback state code).Completes

namespace Strategy.Completes

variable {S : Strategy}

/-- A journaled strategy completes if the strategy does. -/
theorem journaled (h : S.Completes) : S.journaled.Completes where
  onStart state := (h.onStart state.1).journaled .start state.2
  onSecuritiesChanged state changes :=
    (h.onSecuritiesChanged state.1 changes).journaled (.changes changes) state.2
  onData state slice := (h.onData state.1 slice).journaled (.data slice) state.2
  onOrderEvent state e := (h.onOrderEvent state.1 e).journaled (.event e) state.2
  onScheduled state name := (h.onScheduled state.1 name).journaled (.scheduled name) state.2
  onCallback state code := (h.onCallback state.1 code).journaled (.callback code) state.2

/-- The program of a report completes. -/
theorem fire (h : S.Completes) (s : Scheduler S.Code) (due : DueCallback) (state : S.State) :
    (s.fire S due state).Completes := by
  unfold Scheduler.fire
  split
  · rfl
  · rename_i entry _
    unfold Strategy.onDue
    split
    · exact h.onCallback state _
    · exact h.onScheduled state _

end Strategy.Completes

/-! ### Steps that do not fail -/

namespace RunState

variable {S : Strategy} {sel : Selector}

/-- Whether the offsets of all schedules fit, whether or not they are installed. -/
structure Fits (r : RunState S sel) : Prop where
  pending : r.kernel.Fits
  installed : ∀ e ∈ r.scheduler.entries, e.rule.time.fits

/-- What a phase gives if it completes: no failure, and schedules that fit. -/
def Completed (result : RunState S sel × Option RunFailure) : Prop :=
  result.2 = none ∧ result.1.Fits

/-- A callback completes if its program does. -/
theorem call_completed {r : RunState S sel} (hr : r.Fits) (now : Instant) (label : String)
    {program : S.State → Program S.Code (Outcome S.State)}
    (h : (program r.strategy).Completes) : Completed (r.call now label program) := by
  obtain ⟨herror, hpending⟩ := h.run now hr.pending
  refine ⟨?_, hpending, hr.installed⟩
  show (((program r.strategy).run now r.kernel).1.error.map _ : Option RunFailure) = none
  rw [herror]
  rfl

/-- Telling the strategy of changes and giving it a slice completes. -/
theorem notify_completed (hS : S.Completes) {r : RunState S sel} (hr : r.Fits) (now : Instant)
    (changes : Changes) (slice : DataSlice) : Completed (r.notify now changes slice) := by
  have hchanges : Completed (r.notifyChanges now changes) := by
    unfold notifyChanges
    split
    · exact ⟨rfl, hr⟩
    · exact call_completed (r := { r with merged := r.merged.merge changes })
        ⟨hr.pending, hr.installed⟩ now _ (hS.onSecuritiesChanged _ changes)
  unfold notify
  split <;> rename_i q hresult <;> rw [hresult] at hchanges
  · exact absurd hchanges.1 (by simp)
  · unfold notifyData
    split
    · exact hchanges
    · exact call_completed hchanges.2 now _ (hS.onData _ slice)

/-- Deliveries in turn complete. -/
theorem deliverAll_completed (hS : S.Completes) (now : Instant) (deliveries : List Delivery)
    {r : RunState S sel} (hr : r.Fits) : Completed (deliverAll now deliveries r) := by
  induction deliveries generalizing r with
  | nil => exact ⟨rfl, hr⟩
  | cons d rest ih =>
      have hdeliver : Completed (r.deliver now d) := by
        cases d with
        | event e =>
            exact call_completed (r := { r with delivered := r.delivered ++ [e] })
              ⟨hr.pending, hr.installed⟩ now _ (hS.onOrderEvent _ e)
        | fire due => exact call_completed hr now _ (hS.fire r.scheduler due _)
      rw [deliverAll]
      split <;> rename_i q hresult <;> rw [hresult] at hdeliver
      · exact absurd hdeliver.1 (by simp)
      · exact ih hdeliver.2

/-- A dispatch completes. -/
theorem exists_dispatch (hS : S.Completes) {r : RunState S sel} (hr : r.Fits) (now : Instant) :
    ∃ r', r.dispatch now = .ok (r', none) ∧ r'.Fits := by
  obtain ⟨due, scheduler, hdue⟩ := Scheduler.exists_due now.time hr.installed
  have hfits : (r.drained scheduler).Fits := by
    refine ⟨hr.pending, fun e he => ?_⟩
    have hrule : e.rule ∈ r.scheduler.entries.map ScheduleEntry.rule :=
      Scheduler.due_rules hdue ▸ List.mem_map_of_mem he
    obtain ⟨before, hbefore, hsame⟩ := List.mem_map.1 hrule
    rw [← hsame]
    exact hr.installed before hbefore
  obtain ⟨hnone, hr'⟩ := deliverAll_completed hS now (interleave r.kernel.book.drain.1 due) hfits
  refine ⟨_, ?_, hr'⟩
  unfold dispatch
  simp only [hdue]
  exact congrArg Except.ok (Prod.ext rfl hnone)

/-- Installing schedules that fit completes. -/
theorem Fits.install {r : RunState S sel} (hr : r.Fits) : r.install.Fits := by
  have hfold : ∀ (pending : List (PendingSchedule S.Code)) (s : Scheduler S.Code),
      (∀ p ∈ pending, p.rule.time.fits) → (∀ e ∈ s.entries, e.rule.time.fits) →
      ∀ e ∈ (pending.foldl (fun acc p => acc.register p.rule p.action p.registered) s).entries,
        e.rule.time.fits := by
    intro pending
    induction pending with
    | nil => exact fun _ _ hs => hs
    | cons p rest ih =>
        intro s hpending hs
        obtain ⟨hp, hrest⟩ := List.forall_mem_cons.1 hpending
        refine ih _ hrest fun e he => ?_
        rcases List.mem_append.1 he with he | he
        · exact hs e he
        · obtain rfl := List.mem_singleton.1 he
          exact hp
  exact ⟨fun p hp => absurd hp List.not_mem_nil,
    hfold r.kernel.pending r.scheduler hr.pending hr.installed⟩

/-- A step completes. -/
theorem exists_step (hS : S.Completes) {r : RunState S sel} (hr : r.Fits) (now : Instant) :
    ∃ r', r.step now = .ok (r', none) ∧ r'.Fits := by
  have hmatched : (r.market now).2.2.Fits := ⟨hr.pending, hr.installed⟩
  obtain ⟨hnone, hq⟩ := notify_completed hS hmatched now (r.market now).1 (r.market now).2.1
  obtain ⟨r', hdispatch, hr'⟩ := exists_dispatch hS hq now
  refine ⟨r'.install, ?_, hr'.install⟩
  have hphases : r.phases now = .ok (r', none) := by
    unfold phases
    simp only
    cases hnotify : (r.market now).2.2.notify now (r.market now).1 (r.market now).2.1 with
    | mk q failure =>
        rw [hnotify] at hnone hdispatch
        obtain rfl : failure = none := hnone
        exact hdispatch
  unfold step
  rw [hphases]
  rfl

end RunState

/-! ### Runs that do not fail -/

namespace RunProgress

variable {S : Strategy} {sel : Selector}

/-- Whether no step failed and the schedules fit. -/
structure Completing (p : RunProgress S sel) : Prop where
  fits : p.state.Fits
  failure_eq : p.failure = none

/-- A step of a run completes. -/
theorem exists_step (hS : S.Completes) {p : RunProgress S sel} (hp : p.Completing) (clock : Clock)
    (now : Instant) : ∃ p', p.step clock now = .ok p' ∧ p'.Completing := by
  obtain ⟨r', hstep, hr'⟩ := RunState.exists_step hS hp.fits now
  unfold step
  simp only [hstep]
  exact ⟨_, rfl, hr', rfl⟩

/-- The steps of a clock complete. -/
theorem exists_loop (hS : S.Completes) (fuel : Nat) (clock : Clock) {p : RunProgress S sel}
    (hp : p.Completing) : ∃ p', loop fuel clock p = .ok p' ∧ p'.Completing := by
  induction fuel generalizing clock p with
  | zero => exact ⟨p, rfl, hp⟩
  | succ fuel ih =>
      cases hadvance : clock.advance with
      | mk next rest =>
          cases next with
          | none => exact ⟨p, (loop_stopped (.inr (congrArg Prod.fst hadvance)) _).1, hp⟩
          | some now =>
              obtain ⟨q, hstep, hq⟩ := exists_step hS hp rest now
              rw [(loop_stepped hp.failure_eq hadvance hstep fuel).1]
              exact ih rest hq

/-- Steps of which none fails are taken at all instants of the clock. -/
theorem loop_unfailed {fuel : Nat} {clock : Clock} {p p' : RunProgress S sel}
    (h : loop fuel clock p = .ok p') (hnone : p'.failure = none) :
    p.failure = none ∧ (taken fuel clock p).map StepTaken.now = clock.instants fuel ∧
      ∀ s ∈ taken fuel clock p, s.after.failure = none := by
  induction fuel generalizing clock p with
  | zero =>
      obtain rfl := Except.ok.inj h
      exact ⟨hnone, rfl, fun _ hs => absurd hs List.not_mem_nil⟩
  | succ fuel ih =>
      rw [Clock.instants]
      rcases loop_succ h with
        ⟨hstopped, rfl, hnil⟩ | ⟨now, rest, q, hgoes, hadvance, -, hloop, hcons⟩
      · rw [hnil]
        rcases hstopped with hfailed | hnext
        · rw [hnone] at hfailed
          cases hfailed
        · cases hadvance : clock.advance with
          | mk next rest =>
              rw [hadvance] at hnext
              obtain rfl : next = none := hnext
              exact ⟨hnone, rfl, fun _ hs => absurd hs List.not_mem_nil⟩
      · obtain ⟨hq, hnow, hall⟩ := ih hloop
        rw [hcons, hadvance]
        refine ⟨hgoes, congrArg (now :: ·) hnow, fun s hs => ?_⟩
        rcases List.mem_cons.1 hs with rfl | hs
        · exact hq
        · exact hall s hs

/-- A step goes on from the progress after the steps before it. -/
theorem loop_before {fuel n : Nat} {clock : Clock} {p : RunProgress S sel} {s : StepTaken S sel}
    (h : (taken fuel clock p)[n]? = some s) : loop n clock p = .ok s.before := by
  induction fuel generalizing n clock p with
  | zero => cases h
  | succ fuel ih =>
      rcases taken_succ fuel clock p with hnil | ⟨now, rest, q, hnone, hadvance, hstep, hcons⟩
      · rw [hnil] at h
        cases h
      · rw [hcons] at h
        cases n with
        | zero =>
            obtain rfl := Option.some.inj h
            rfl
        | succ n =>
            rw [(loop_stepped hnone hadvance hstep n).1]
            exact ih h

end RunProgress

namespace Engine

variable {e : Engine} {S : Strategy} {fuel : Nat}

/-- A step of a run goes on from the progress after the steps before it. -/
theorem after_before {p : RunProgress S e.selector} (h : e.after S fuel = .ok p) {n : Nat}
    {s : StepTaken S e.selector} (hs : (e.taken S fuel)[n]? = some s) :
    e.after S n = .ok s.before := by
  obtain ⟨hspec, clock, hclock, -⟩ := after_eq_ok.1 h
  rw [taken_eq hclock] at hs
  exact after_eq_ok.2 ⟨hspec, clock, hclock, RunProgress.loop_before hs⟩

/-- Whether a strategy can be run at the resolution of an engine, whose dates are in order. -/
structure Accepts (e : Engine) (S : Strategy) : Prop where
  spec : StrategyHost.checkSpec S.spec e.settings.resolution = .ok ()
  clock : ∃ clock, e.clock = .ok clock

/-- A run that does not fail takes a step at every instant of its clock, and none of them fails. -/
theorem after_unfailed {p : RunProgress S e.selector} (h : e.after S fuel = .ok p)
    (hnone : p.failure = none) :
    (e.taken S fuel).map StepTaken.now = e.instants fuel ∧
      ∀ s ∈ e.taken S fuel, s.after.failure = none := by
  obtain ⟨-, clock, hclock, hloop⟩ := after_eq_ok.1 h
  rw [taken_eq hclock]
  unfold instants
  rw [hclock]
  exact (RunProgress.loop_unfailed hloop hnone).2

/-- A run of a strategy that completes does not fail. -/
theorem after_completes (hS : S.Completes) (he : e.Accepts S) (fuel : Nat) :
    ∃ p, e.after S fuel = .ok p ∧ p.failure = none := by
  obtain ⟨clock, hclock⟩ := he.clock
  have hstart : (RunState.start S e.selector e.settings e.prices e.contracts).Fits :=
    ⟨fun _ hp => absurd hp List.not_mem_nil, fun _ hs => absurd hs List.not_mem_nil⟩
  obtain ⟨hnone, hfits⟩ := RunState.call_completed hstart e.initial "initialize"
    (hS.onStart _)
  have hbegin : (e.begin S).Completing := ⟨hfits.install, hnone⟩
  obtain ⟨p, hloop, hp⟩ := RunProgress.exists_loop hS fuel clock hbegin
  exact ⟨p, after_eq_ok.2 ⟨he.spec, clock, hclock, hloop⟩, hp.failure_eq⟩

end Engine

end MarketReplay
