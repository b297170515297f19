import MarketReplay.Proofs.Run.Announcements

/-!
# Journaled runs

A run is the journaled run without its journal (`Engine.after_unjournaled`), for any price source.
The journal grows by the callbacks of a step: a list of deliveries that does not fail adds one
record for each of them, in their order (`RunState.deliverAll_journal`), and changes and slice add
none of an order event (`RunState.notify_journal`).
-/

namespace MarketReplay

namespace RunState

variable {S : Strategy} {sel : Selector}

/-- The records of a journaled run so far. -/
def journal (r : RunState S.journaled sel) : List (JournalEntry S.Code) := r.strategy.2

/-- The state of a journaled run without the journal. -/
def unjournaled (r : RunState S.journaled sel) : RunState S sel := r.forget r.feed

/-- A step is the journaled step without the journal. -/
theorem step_unjournaled (r : RunState S.journaled sel) (now : Instant) :
    r.unjournaled.step now =
      (r.step now).map fun result => (result.1.unjournaled, result.2) := by
  have hslice : ∀ symbols, (r.feed.slice now symbols).1 = (r.feed.slice now symbols).1 :=
    fun _ => rfl
  obtain ⟨symbols, hstep, hfeed⟩ := step_forget_of_slice hslice
  unfold unjournaled
  rw [hstep]
  cases hresult : r.step now with
  | error o => rfl
  | ok result =>
      obtain ⟨r', failure⟩ := result
      show Except.ok (r'.forget (r.feed.slice now symbols).2, failure) =
        Except.ok (r'.forget r'.feed, failure)
      rw [hfeed r' failure hresult]

end RunState

namespace RunProgress

variable {S : Strategy} {sel : Selector}

/-- The progress of a journaled run without the journal. -/
def unjournaled (p : RunProgress S.journaled sel) : RunProgress S sel := p.forget p.state.feed

/-- A step of a run is the journaled one without the journal. -/
theorem step_unjournaled (p : RunProgress S.journaled sel) (clock : Clock) (now : Instant) :
    p.unjournaled.step clock now = (p.step clock now).map unjournaled := by
  have hstate : p.unjournaled.state.step now =
      (p.state.step now).map fun result => (result.1.unjournaled, result.2) :=
    p.state.step_unjournaled now
  unfold step
  rw [hstate]
  cases p.state.step now with
  | error o => rfl
  | ok result =>
      obtain ⟨r, failure⟩ := result
      cases failure <;> rfl

/-- The steps of a clock are the journaled ones without the journal. -/
theorem loop_unjournaled (fuel : Nat) (clock : Clock) (p : RunProgress S.journaled sel) :
    loop fuel clock p.unjournaled = (loop fuel clock p).map unjournaled := by
  induction fuel generalizing clock p with
  | zero => rfl
  | succ fuel ih =>
      rw [loop, loop]
      have hfailure : p.unjournaled.failure = p.failure := rfl
      rw [hfailure]
      by_cases hfailed : p.failure.isSome
      · rw [if_pos hfailed, if_pos hfailed]
        rfl
      · rw [if_neg hfailed, if_neg hfailed]
        cases clock.advance with
        | mk next rest =>
            cases next with
            | none => rfl
            | some now =>
                simp only [step_unjournaled]
                cases p.step rest now with
                | error o => rfl
                | ok p' => exact ih rest p'

end RunProgress

/-- A run is the journaled run without the journal. -/
theorem Engine.after_unjournaled (e : Engine) (S : Strategy) (steps : Nat) :
    e.after S steps = (e.after S.journaled steps).map RunProgress.unjournaled := by
  have hbegin : e.begin S = (e.begin S.journaled).unjournaled := by
    have hlaunch := RunState.launch_forget (e.begin S.journaled).state.feed
      (RunState.start S.journaled e.selector e.settings e.prices e.contracts)
      (.startOf e.settings.start e.settings.resolution)
    exact congrArg (fun result : RunState S e.selector × Option RunFailure =>
      (⟨result.1, 0, [], result.2⟩ : RunProgress S e.selector)) hlaunch
  have hspec : S.journaled.spec = S.spec := rfl
  unfold Engine.after
  rw [hspec, hbegin]
  cases StrategyHost.checkSpec S.spec e.settings.resolution with
  | error failure => rfl
  | ok =>
      cases e.clock with
      | error failure => rfl
      | ok clock =>
          simp only [RunProgress.loop_unjournaled]
          cases RunProgress.loop steps clock (e.begin S.journaled) <;> rfl

/-! ### Records of deliveries -/

section Records

variable {κ : Type}

/-- What an action calls the strategy for. -/
def ScheduledAction.occasion : ScheduledAction κ → Occasion κ
  | .callback code => .callback code
  | .named name => .scheduled name

namespace Delivery

/-- What a delivery calls the strategy for; the report of a schedule that the scheduler does not
have calls for nothing. -/
def occasion? (s : Scheduler κ) : Delivery → Option (Occasion κ)
  | .event e => some (.event e)
  | .fire due => (s.entry? due.entry).map fun entry => entry.action.occasion

/-- Whether a record is that of a delivery at an instant. -/
def RecordedAs (s : Scheduler κ) (now : Instant) (d : Delivery) (entry : JournalEntry κ) : Prop :=
  entry.instant = now ∧ d.occasion? s = some entry.occasion

end Delivery

/-- The order event that the strategy was told of with a callback. -/
def JournalEntry.event? (entry : JournalEntry κ) : Option OrderEvent :=
  match entry.occasion with
  | .event e => some e
  | _ => none

/-- The record of an order event tells of it, that of a fire of none. -/
theorem Delivery.RecordedAs.event?_eq {s : Scheduler κ} {now : Instant} {d : Delivery}
    {entry : JournalEntry κ} (h : d.RecordedAs s now entry) :
    entry.event?.toList = RunState.eventsOf [d] := by
  obtain ⟨-, hoccasion⟩ := h
  unfold JournalEntry.event?
  cases d with
  | event e =>
      obtain hevent : Occasion.event e = entry.occasion := Option.some.inj hoccasion
      rw [← hevent]
      rfl
  | fire due =>
      obtain ⟨scheduled, -, haction⟩ := Option.map_eq_some_iff.1 hoccasion
      rw [← haction]
      cases scheduled.action <;> rfl

/-- The records of deliveries tell of their order events, and are all of the instant. -/
theorem events_of_recorded {s : Scheduler κ} {now : Instant} {deliveries : List Delivery}
    {entries : List (JournalEntry κ)}
    (h : List.Forall₂ (Delivery.RecordedAs s now) deliveries entries) :
    entries.filterMap JournalEntry.event? = RunState.eventsOf deliveries ∧
      ∀ x ∈ entries, x.instant = now := by
  induction h with
  | nil => exact ⟨rfl, fun _ hx => absurd hx List.not_mem_nil⟩
  | @cons d entry rest entries hfirst _ ih =>
      obtain ⟨hevents, hinstants⟩ := ih
      refine ⟨?_, List.forall_mem_cons.2 ⟨hfirst.1, hinstants⟩⟩
      rw [RunState.eventsOf_cons, ← hfirst.event?_eq, ← hevents, List.filterMap_cons]
      cases entry.event? <;> rfl

end Records

namespace RunState

variable {S : Strategy} {sel : Selector}

/-- The due reports among deliveries. -/
def firesOf (deliveries : List Delivery) : List DueCallback :=
  deliveries.filterMap fun
    | .event _ => none
    | .fire due => some due

/-- A delivery adds its record to the journal, if it calls for something. -/
theorem deliver_journal (r : RunState S.journaled sel) (now : Instant) {d : Delivery}
    (hknown : (d.occasion? (κ := S.Code) r.scheduler).isSome) :
    ∃ entry, (r.deliver now d).1.journal = r.journal ++ [entry] ∧
      d.RecordedAs (κ := S.Code) r.scheduler now entry := by
  cases d with
  | event e =>
      obtain ⟨exchanges, error, hjournal, -⟩ :=
        call_journaled { r with delivered := r.delivered ++ [e] } now "on_order_event" (.event e)
          fun state => S.onOrderEvent state e
      exact ⟨_, hjournal, rfl, rfl⟩
  | fire due =>
      obtain ⟨occasion, hoccasion⟩ := Option.isSome_iff_exists.1 hknown
      obtain ⟨entry, hentry, haction⟩ := Option.map_eq_some_iff.1 hoccasion
      have hfire : Scheduler.fire S.journaled r.scheduler due = fun state =>
          (S.onDue state.1 entry.action).journaled entry.action.occasion state.2 := by
        funext state
        have hentry : Scheduler.entry? (κ := S.journaled.Code) r.scheduler due.entry =
          some entry := hentry
        simp only [Scheduler.fire, hentry]
        cases entry.action <;> rfl
      obtain ⟨exchanges, error, hjournal, -⟩ :=
        r.call_journaled now (r.scheduler.label due) entry.action.occasion
          fun state => S.onDue state entry.action
      refine ⟨⟨now, entry.action.occasion, exchanges, error⟩, ?_, rfl, ?_⟩
      · show (r.call now (r.scheduler.label due)
          (Scheduler.fire S.journaled r.scheduler due)).1.strategy.2 = _
        rw [hfire]
        exact hjournal
      · rw [hoccasion, haction]

/-- Deliveries of which none fails add one record each, in their order. -/
theorem deliverAll_journal (now : Instant) (deliveries : List Delivery)
    {r r' : RunState S.journaled sel}
    (hknown : ∀ d ∈ deliveries, (d.occasion? (κ := S.Code) r.scheduler).isSome)
    (h : deliverAll now deliveries r = (r', none)) :
    ∃ entries, r'.journal = r.journal ++ entries ∧
      List.Forall₂ (Delivery.RecordedAs (κ := S.Code) r.scheduler now) deliveries entries := by
  induction deliveries generalizing r with
  | nil =>
      obtain ⟨rfl, -⟩ := Prod.mk.inj h
      exact ⟨[], (List.append_nil _).symm, .nil⟩
  | cons d rest ih =>
      obtain ⟨hfirst, hrest⟩ := List.forall_mem_cons.1 hknown
      obtain ⟨entry, hjournal, hrecorded⟩ := r.deliver_journal now hfirst
      have hscheduler : (r.deliver now d).1.scheduler = r.scheduler := by cases d <;> rfl
      rw [deliverAll] at h
      cases hdeliver : r.deliver now d with
      | mk q failure =>
          rw [hdeliver] at h hjournal hscheduler
          cases failure with
          | some failure => cases (Prod.mk.inj h).2
          | none =>
              obtain ⟨entries, hmore, hall⟩ := ih (hscheduler ▸ hrest) h
              rw [hscheduler] at hall
              refine ⟨entry :: entries, ?_, .cons hrecorded hall⟩
              rw [hmore, hjournal, List.append_assoc]
              rfl

/-- A callback that tells of no order event adds a record that tells of none. -/
theorem call_journal (r : RunState S.journaled sel) (now : Instant) (label : String)
    (occasion : Occasion S.Code) (program : S.State → Program S.Code (Outcome S.State))
    (hquiet : ∀ exchanges error,
      (⟨now, occasion, exchanges, error⟩ : JournalEntry S.Code).event? = none) :
    ∃ entries, (r.call now label fun state =>
        (program state.1).journaled occasion state.2).1.journal = r.journal ++ entries ∧
      ∀ x ∈ entries, x.instant = now ∧ x.event? = none := by
  obtain ⟨exchanges, error, hjournal, -⟩ := r.call_journaled now label occasion program
  refine ⟨_, hjournal, fun x hx => ?_⟩
  obtain rfl := List.mem_singleton.1 hx
  exact ⟨rfl, hquiet exchanges error⟩

/-- Changes and slice add records of the instant that tell of no order event. -/
theorem notify_journal (r : RunState S.journaled sel) (now : Instant) (changes : Changes)
    (slice : DataSlice) :
    ∃ entries, (r.notify now changes slice).1.journal = r.journal ++ entries ∧
      ∀ x ∈ entries, x.instant = now ∧ x.event? = none := by
  have hkept : ∀ q : RunState S.journaled sel, ∃ entries, q.journal = q.journal ++ entries ∧
      ∀ x ∈ entries, x.instant = now ∧ x.event? = none :=
    fun q => ⟨[], (List.append_nil _).symm, fun _ hx => absurd hx List.not_mem_nil⟩
  have hdata : ∀ q : RunState S.journaled sel,
      ∃ entries, (q.notifyData now slice).1.journal = q.journal ++ entries ∧
        ∀ x ∈ entries, x.instant = now ∧ x.event? = none := by
    intro q
    unfold notifyData
    split
    · exact hkept q
    · exact q.call_journal now "on_data" (.data slice) (fun state => S.onData state slice)
        fun _ _ => rfl
  have hchanges : ∃ entries, (r.notifyChanges now changes).1.journal = r.journal ++ entries ∧
      ∀ x ∈ entries, x.instant = now ∧ x.event? = none := by
    unfold notifyChanges
    split
    · exact hkept r
    · exact call_journal { r with merged := r.merged.merge changes } now "on_securities_changed"
        (.changes changes) (fun state => S.onSecuritiesChanged state changes) fun _ _ => rfl
  obtain ⟨first, hfirst, hquiet⟩ := hchanges
  unfold notify
  split <;> rename_i q hresult <;> rw [hresult] at hfirst
  · exact ⟨first, hfirst, hquiet⟩
  · obtain ⟨more, hmore, hquiet'⟩ := hdata q
    refine ⟨first ++ more, ?_, fun x hx => ?_⟩
    · rw [hmore, hfirst, List.append_assoc]
    · rcases List.mem_append.1 hx with hx | hx
      · exact hquiet x hx
      · exact hquiet' x hx

end RunState

end MarketReplay
