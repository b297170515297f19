import MarketReplay.Proofs.Run.Completion
import MarketReplay.Proofs.Run.Journals

/-!
# The order of a dispatch

A dispatch merges two lists that keep their orders: the drained events, sorted by submission, and
the due reports, sorted by time. A report is delivered after an event exactly if neither this event
nor one before it is later (`Interleaved.fire_after_iff`), so an event goes before the reports that
are not earlier than itself unless a later event is delivered before it. No order of delivery that
keeps the two lists does better (`ByTime.eq_interleave`). In a run each delivery is one callback
(`Engine.dispatched_in_turn`).
-/

namespace MarketReplay

namespace RunState

/-- The due reports of deliveries are those of the first ones and then the others. -/
theorem firesOf_append (front back : List Delivery) :
    firesOf (front ++ back) = firesOf front ++ firesOf back :=
  List.filterMap_append

/-- The due reports among reports are the reports. -/
theorem firesOf_map_fire (due : List DueCallback) : firesOf (due.map .fire) = due := by
  induction due with
  | nil => rfl
  | cons d rest ih => exact congrArg (d :: ·) ih

/-- The order events of deliveries are those of the first ones and then the others. -/
theorem eventsOf_append (front back : List Delivery) :
    eventsOf (front ++ back) = eventsOf front ++ eventsOf back :=
  List.filterMap_append

/-- A report is delivered if it is among the reports delivered. -/
theorem mem_firesOf {deliveries : List Delivery} {d : DueCallback} :
    d ∈ firesOf deliveries ↔ .fire d ∈ deliveries := by
  unfold firesOf
  rw [List.mem_filterMap]
  constructor
  · intro h
    obtain ⟨x, hx, hfire⟩ := h
    cases x with
    | event e => cases hfire
    | fire due =>
        obtain rfl := Option.some.inj hfire
        exact hx
  · exact fun h => ⟨_, h, rfl⟩

/-- An event in a list of deliveries stands between the deliveries before and behind it. -/
theorem split_of_eventsOf {deliveries : List Delivery} {front back : List OrderEvent}
    {e : OrderEvent} (h : eventsOf deliveries = front ++ e :: back) :
    ∃ front' back', deliveries = front' ++ .event e :: back' ∧ eventsOf front' = front ∧
      eventsOf back' = back := by
  induction deliveries generalizing front with
  | nil => cases front <;> cases h
  | cons d rest ih =>
      cases d with
      | fire due =>
          obtain ⟨front', back', rfl, hfront, hback⟩ := ih h
          exact ⟨.fire due :: front', back', rfl, hfront, hback⟩
      | event first =>
          cases front with
          | nil =>
              obtain ⟨rfl, hback⟩ := List.cons.inj h
              exact ⟨[], rest, rfl, rfl, hback⟩
          | cons x front =>
              obtain ⟨rfl, hrest⟩ := List.cons.inj h
              obtain ⟨front', back', rfl, hfront, hback⟩ := ih hrest
              exact ⟨.event first :: front', back', rfl, congrArg (first :: ·) hfront, hback⟩

/-- Deliveries without events are their reports. -/
theorem eq_map_fire {deliveries : List Delivery} (h : eventsOf deliveries = []) :
    deliveries = (firesOf deliveries).map .fire := by
  induction deliveries with
  | nil => rfl
  | cons d rest ih =>
      cases d with
      | event e => cases h
      | fire due => exact congrArg (Delivery.fire due :: ·) (ih h)

/-- An event behind some reports and a first event is the first one or stands behind it. -/
theorem split_first_event {fires : List DueCallback} {first e : OrderEvent}
    {tail front back : List Delivery}
    (h : fires.map .fire ++ .event first :: tail = front ++ .event e :: back) :
    (front = fires.map .fire ∧ e = first ∧ back = tail) ∨
      ∃ more, front = fires.map .fire ++ .event first :: more ∧
        tail = more ++ .event e :: back := by
  induction fires generalizing front with
  | nil =>
      cases front with
      | nil =>
          obtain ⟨hevent, hback⟩ := List.cons.inj h
          exact .inl ⟨rfl, (Delivery.event.inj hevent).symm, hback.symm⟩
      | cons d front =>
          obtain ⟨rfl, hrest⟩ := List.cons.inj h
          exact .inr ⟨front, rfl, hrest⟩
  | cons due fires ih =>
      cases front with
      | nil => cases (List.cons.inj h).1
      | cons d front =>
          obtain ⟨rfl, hrest⟩ := List.cons.inj h
          obtain ⟨rfl, he, hback⟩ | ⟨more, rfl, htail⟩ := ih hrest
          · exact .inl ⟨rfl, he, hback⟩
          · exact .inr ⟨more, rfl, htail⟩

end RunState

open RunState

/-! ### Interleaved deliveries -/

/-- Whether every event goes before exactly those reports that are not earlier than itself. -/
def ByTime (deliveries : List Delivery) : Prop :=
  ∀ front e back, deliveries = front ++ .event e :: back →
    (∀ d, .fire d ∈ front → d.time < e.time) ∧ ∀ d, .fire d ∈ back → e.time ≤ d.time

/-- Deliveries of events and reports: both keep their order, and a report is delivered after an
event exactly if neither this event nor one before it is later than the report. -/
structure Interleaved (events : List OrderEvent) (due : List DueCallback)
    (deliveries : List Delivery) : Prop where
  events_eq : eventsOf deliveries = events
  fires_eq : firesOf deliveries = due
  fire_after_iff : ∀ front e back, deliveries = front ++ .event e :: back → ∀ d ∈ due,
    (.fire d ∈ back ↔ ∀ x ∈ eventsOf front ++ [e], x.time ≤ d.time)

section Interleaving

variable {events : List OrderEvent} {due : List DueCallback} {deliveries : List Delivery}

/-- Of sorted reports an event passes over those that are earlier, and leaves the others. -/
theorem pass_eq_filter (e : OrderEvent) (hsorted : due.Pairwise fun a b => a.time ≤ b.time) :
    due.takeWhile (fun d => decide (d.time < e.time)) = due.filter (fun d => d.time < e.time) ∧
      due.dropWhile (fun d => decide (d.time < e.time)) =
        due.filter fun d => e.time ≤ d.time := by
  induction due with
  | nil => exact ⟨rfl, rfl⟩
  | cons d rest ih =>
      obtain ⟨hfirst, hrest⟩ := List.pairwise_cons.1 hsorted
      obtain ⟨htake, hdrop⟩ := ih hrest
      by_cases hearlier : d.time < e.time
      · have hnot : ¬ e.time ≤ d.time := Int.not_le.2 hearlier
        simp only [List.takeWhile_cons, List.dropWhile_cons, List.filter_cons, hearlier, hnot,
          decide_true, decide_false, if_true, htake, hdrop]
        exact ⟨trivial, rfl⟩
      · -- No report behind it is earlier, so none is passed over.
        have hlater : ∀ x ∈ d :: rest, e.time ≤ x.time := by
          intro x hx
          rcases List.mem_cons.1 hx with rfl | hx
          · exact Int.not_lt.1 hearlier
          · exact Int.le_trans (Int.not_lt.1 hearlier) (hfirst x hx)
        have hnone : (d :: rest).filter (fun x => x.time < e.time) = [] :=
          List.filter_eq_nil_iff.2 fun x hx hlt =>
            absurd (of_decide_eq_true hlt) (Int.not_lt.2 (hlater x hx))
        have hall : (d :: rest).filter (fun x => e.time ≤ x.time) = d :: rest :=
          List.filter_eq_self.2 fun x hx => decide_eq_true (hlater x hx)
        rw [hnone, hall]
        simp [hearlier]

/-- An event passes over the earlier reports in front, and leaves those from the first one on that
is not earlier. -/
theorem pass_append {e : OrderEvent} {passed left : List DueCallback}
    (hpassed : ∀ d ∈ passed, d.time < e.time) (hleft : ∀ d ∈ left, e.time ≤ d.time) :
    (passed ++ left).takeWhile (fun d => decide (d.time < e.time)) = passed ∧
      (passed ++ left).dropWhile (fun d => decide (d.time < e.time)) = left := by
  have hearlier : ∀ d ∈ passed, decide (d.time < e.time) = true :=
    fun d hd => decide_eq_true (hpassed d hd)
  rw [List.takeWhile_append_of_pos hearlier, List.dropWhile_append_of_pos hearlier]
  cases left with
  | nil => exact ⟨List.append_nil _, rfl⟩
  | cons d rest =>
      have hnot : ¬ d.time < e.time := Int.not_lt.2 (hleft d List.mem_cons_self)
      simp [hnot]

/-- The reports among interleaved deliveries are the reports, in their order. -/
theorem firesOf_interleave (events : List OrderEvent) (due : List DueCallback) :
    firesOf (interleave events due) = due := by
  induction events generalizing due with
  | nil => exact firesOf_map_fire due
  | cons e rest ih =>
      have hback : ∀ back : List Delivery, firesOf (.event e :: back) = firesOf back := fun _ => rfl
      rw [interleave, firesOf_append, firesOf_map_fire, hback, ih]
      exact List.takeWhile_append_dropWhile

/-- Events and sorted reports are interleaved. -/
theorem interleave_interleaved (events : List OrderEvent)
    (hsorted : due.Pairwise fun a b => a.time ≤ b.time) :
    Interleaved events due (interleave events due) := by
  refine ⟨eventsOf_interleave events due, firesOf_interleave events due, ?_⟩
  -- The reports passed over by the first event are earlier, and those left are interleaved with the
  -- other events.
  induction events generalizing due with
  | nil =>
      intro front e back hsplit
      have hnone : eventsOf (due.map .fire) = eventsOf (front ++ .event e :: back) :=
        congrArg eventsOf hsplit
      rw [eventsOf_map_fire, eventsOf_append] at hnone
      exact absurd hnone.symm (List.append_ne_nil_of_right_ne_nil _ (List.cons_ne_nil _ _))
  | cons first rest ih =>
      intro front e back hsplit d hd
      obtain ⟨htake, hdrop⟩ := pass_eq_filter first hsorted
      rw [interleave, htake, hdrop] at hsplit
      let left := due.filter fun d => first.time ≤ d.time
      have hleft : d ∈ left ↔ first.time ≤ d.time := by
        rw [List.mem_filter]
        exact ⟨fun h => of_decide_eq_true h.2, fun h => ⟨hd, decide_eq_true h⟩⟩
      obtain ⟨rfl, rfl, rfl⟩ | ⟨more, rfl, htail⟩ := split_first_event hsplit
      · rw [← mem_firesOf, firesOf_interleave, eventsOf_map_fire, hleft]
        simp
      · have hevents : eventsOf ((due.filter fun d => d.time < first.time).map .fire ++
            .event first :: more) = first :: eventsOf more := by
          rw [eventsOf_append, eventsOf_map_fire]
          rfl
        rw [hevents, List.cons_append, List.forall_mem_cons]
        by_cases hpassed : first.time ≤ d.time
        · have hrest := ih (hsorted.sublist List.filter_sublist) more e back htail d
            (hleft.2 hpassed)
          rw [hrest]
          exact (and_iff_right hpassed).symm
        · refine iff_of_false (fun hback => hpassed (hleft.1 ?_)) fun h => hpassed h.1
          rw [← firesOf_interleave rest left, htail, mem_firesOf]
          exact List.mem_append_right _ (List.mem_cons_of_mem _ hback)

namespace Interleaved

/-- Interleaved deliveries are in the order of time exactly if no event that is not later than a
report follows one that is. -/
theorem byTime_iff (h : Interleaved events due deliveries) (hnodup : due.Nodup) :
    ByTime deliveries ↔
      events.Pairwise fun x e => ∀ d ∈ due, e.time ≤ d.time → x.time ≤ d.time := by
  constructor
  · intro hbyTime
    refine List.pairwise_iff_getElem.2 fun i j hi hj hij d hd hle => ?_
    have hevents : eventsOf deliveries = events.take j ++ events[j] :: events.drop (j + 1) :=
      h.events_eq.trans (split_getElem? (List.getElem?_eq_getElem hj))
    obtain ⟨front, back, hsplit, hfront, -⟩ := split_of_eventsOf hevents
    have hmem : Delivery.fire d ∈ front ++ .event events[j] :: back :=
      hsplit ▸ mem_firesOf.1 (h.fires_eq ▸ hd)
    rcases List.mem_append.1 hmem with hbefore | hafter
    · exact absurd hle (Int.not_le.2 ((hbyTime front _ back hsplit).1 d hbefore))
    · have hback : Delivery.fire d ∈ back := by simpa using hafter
      refine (h.fire_after_iff front _ back hsplit d hd).1 hback _ (List.mem_append_left _ ?_)
      rw [hfront]
      exact List.mem_take_iff_getElem.2 ⟨i, by omega, rfl⟩
  · intro hpairwise front e back hsplit
    have hevents : events = eventsOf front ++ e :: eventsOf back := by
      rw [← h.events_eq, hsplit, eventsOf_append]
      rfl
    have hfires : due = firesOf front ++ firesOf back := by
      rw [← h.fires_eq, hsplit, firesOf_append]
      rfl
    rw [hevents] at hpairwise
    rw [hfires] at hnodup
    refine ⟨fun d hd => ?_, fun d hd => ?_⟩
    · have hdue : d ∈ due := hfires ▸ List.mem_append_left _ (mem_firesOf.2 hd)
      -- It cannot stand behind the event as well, so it is earlier.
      refine Int.not_le.1 fun hle => ?_
      have hback : Delivery.fire d ∈ back := by
        refine (h.fire_after_iff front e back hsplit d hdue).2 fun x hx => ?_
        rcases List.mem_append.1 hx with hx | hx
        · exact (List.pairwise_append.1 hpairwise).2.2 x hx e List.mem_cons_self d hdue hle
        · obtain rfl := List.mem_singleton.1 hx
          exact hle
      exact (List.nodup_append.1 hnodup).2.2 d (mem_firesOf.2 hd) d (mem_firesOf.2 hback) rfl
    · have hdue : d ∈ due := hfires ▸ List.mem_append_right _ (mem_firesOf.2 hd)
      exact (h.fire_after_iff front e back hsplit d hdue).1 hd e
        (List.mem_append_right _ (List.mem_singleton.2 rfl))

end Interleaved

/-- The deliveries behind some are in the order of time if all are. -/
theorem ByTime.of_append (front : List Delivery) (h : ByTime (front ++ deliveries)) :
    ByTime deliveries := by
  intro front' e back hsplit
  obtain ⟨hbefore, hafter⟩ := h (front ++ front') e back (by rw [hsplit, List.append_assoc])
  exact ⟨fun d hd => hbefore d (List.mem_append_right _ hd), hafter⟩

/-- Deliveries in the order of time are those that interleave their events and reports. -/
theorem ByTime.eq_interleave (h : ByTime deliveries) :
    deliveries = interleave (eventsOf deliveries) (firesOf deliveries) := by
  generalize hevents : eventsOf deliveries = events
  induction events generalizing deliveries with
  | nil => exact eq_map_fire hevents
  | cons e rest ih =>
      obtain ⟨front, back, rfl, hnone, hrest⟩ :=
        split_of_eventsOf (List.nil_append (e :: rest) ▸ hevents)
      obtain ⟨hbefore, hafter⟩ := h front e back rfl
      have hback : back = interleave rest (firesOf back) := by
        refine ih (ByTime.of_append (front ++ [.event e]) ?_) hrest
        rwa [List.append_assoc]
      obtain ⟨htake, hdrop⟩ : (firesOf front ++ firesOf back).takeWhile _ = firesOf front ∧
          (firesOf front ++ firesOf back).dropWhile _ = firesOf back :=
        pass_append (fun d hd => hbefore d (mem_firesOf.1 hd))
          fun d hd => hafter d (mem_firesOf.1 hd)
      have hfires : firesOf (front ++ .event e :: back) = firesOf front ++ firesOf back :=
        firesOf_append front _
      rw [hfires, interleave, htake, hdrop, ← eq_map_fire hnone, ← hback]

end Interleaving

/-! ### The schedules of a run -/

namespace RunState

variable {S : Strategy} {sel : Selector}

/-- Installing schedules numbers them in turn. -/
theorem install_numbered {r : RunState S sel} (h : r.scheduler.Numbered) :
    r.install.scheduler.Numbered := by
  have hfold : ∀ (pending : List (PendingSchedule S.Code)) (s : Scheduler S.Code), s.Numbered →
      (pending.foldl (fun acc p => acc.register p.rule p.action p.registered) s).Numbered := by
    intro pending
    induction pending with
    | nil => exact fun s hs => hs
    | cons p rest ih => exact fun s hs => ih _ (hs.register p.rule p.action p.registered)
  exact hfold r.kernel.pending r.scheduler h

/-- Every step keeps the schedules numbered. -/
theorem step_numbered {r r' : RunState S sel} {now : Instant} {failure : Option RunFailure}
    (hr : r.kernel.book.Consistent r.delivered) (h : r.scheduler.Numbered)
    (hstep : r.step now = .ok (r', failure)) : r'.scheduler.Numbered := by
  have hmarket := market_consistent hr now
  have hcalled := notify_called hmarket now (r.market now).1 (r.market now).2.1
  have hmatched : (r.market now).2.2.scheduler = r.scheduler := rfl
  obtain ⟨q, f, hfailed, -, rfl⟩ | ⟨q, q', hdone, hdispatch, rfl⟩ := step_cases hstep
  · rw [hfailed] at hcalled
    refine install_numbered ?_
    rwa [hcalled.scheduler_eq, hmatched]
  · rw [hdone] at hcalled
    have hq : q.scheduler.Numbered := by rwa [hcalled.scheduler_eq, hmatched]
    obtain ⟨due, scheduler, hdue, hresult⟩ := dispatch_eq hdispatch
    have hdrained := drained_consistent (notify_consistent hmarket hdone) scheduler
    have hdelivered := deliverAll_called now (interleave q.kernel.book.drain.1 due) hdrained
    rw [hresult] at hdelivered
    refine install_numbered ?_
    rw [hdelivered.scheduler_eq]
    exact hq.due hdue

end RunState

/-- The schedules of an initialized strategy are numbered. -/
theorem Engine.begin_numbered (e : Engine) (S : Strategy) :
    (e.begin S).state.scheduler.Numbered := by
  let start := RunState.start S e.selector e.settings e.prices e.contracts
  exact install_numbered (r := (start.call e.initial "initialize" S.onStart).1) rfl

/-! ### Dispatches of a run -/

namespace RunState

variable {S : Strategy} {sel : Selector}

/-- The state before a dispatch: the market's part of the step is taken, and the strategy was told
of changes and given the slice. -/
def told (r : RunState S sel) (now : Instant) : RunState S sel :=
  let (changes, slice, matched) := r.market now
  (matched.notify now changes slice).1

/-- The reports that are due at an instant. -/
def due (r : RunState S sel) (now : Instant) : List DueCallback :=
  match r.scheduler.due now.time with
  | .error _ => []
  | .ok (due, _) => due

/-- Draining the book records nothing. -/
theorem drained_journal (r : RunState S.journaled sel) (scheduler : Scheduler S.journaled.Code) :
    (r.drained scheduler).journal = r.journal := rfl

/-- Installing schedules records nothing. -/
theorem install_journal (r : RunState S.journaled sel) : r.install.journal = r.journal := rfl

end RunState

namespace StepTaken

variable {S : Strategy} {sel : Selector}

/-- The state of a step before its dispatch. -/
def told (s : StepTaken S sel) : RunState S sel := s.before.state.told s.now

/-- The events that the dispatch of a step drains. -/
def batch (s : StepTaken S sel) : List OrderEvent := s.told.kernel.book.drain.1

/-- The reports that are due in a step. -/
def due (s : StepTaken S sel) : List DueCallback := s.told.due s.now

/-- What the dispatch of a step delivers. -/
def deliveries (s : StepTaken S sel) : List Delivery := interleave s.batch s.due

/-- The book before the dispatch of a step agrees with the delivered events. -/
theorem told_consistent {s : StepTaken S sel}
    (h : s.before.state.kernel.book.Consistent s.before.state.delivered) :
    s.told.kernel.book.Consistent s.told.delivered :=
  notify_consistent (market_consistent h s.now) rfl

/-- The schedules before the dispatch of a step are those before the step. -/
theorem told_scheduler {s : StepTaken S sel}
    (h : s.before.state.kernel.book.Consistent s.before.state.delivered) :
    s.told.scheduler = s.before.state.scheduler :=
  (notify_called (market_consistent h s.now) s.now _ _).scheduler_eq

/-- The dispatch of a step that does not fail makes all its deliveries. -/
theorem dispatched {s : StepTaken S sel} (hstep : s.before.step s.clock s.now = .ok s.after)
    (hnone : s.after.failure = none) :
    ∃ scheduler q, s.told.scheduler.due s.now.time = .ok (s.due, scheduler) ∧
      deliverAll s.now s.deliveries (s.told.drained scheduler) = (q, none) ∧
      s.after.state = q.install := by
  have hstate := (RunProgress.step_eq hstep).1
  obtain ⟨q, f, -, hfailed, -⟩ | ⟨q, q', hdone, hdispatch, hafter⟩ := step_cases hstate
  · rw [hnone] at hfailed
    cases hfailed
  · have htold : s.told = q := congrArg Prod.fst hdone
    obtain ⟨due, scheduler, hdue, hresult⟩ := dispatch_eq hdispatch
    rw [← htold] at hdue hresult
    have hsame : s.due = due := by
      unfold StepTaken.due RunState.due
      rw [hdue]
    rw [hnone] at hresult
    refine ⟨scheduler, q', ?_, ?_, hafter⟩
    · rw [hsame]
      exact hdue
    · unfold deliveries
      rw [hsame]
      exact hresult

/-- A step of a journaled run that delivers the events of the queue, sorted by submission, and the
due reports, sorted by time and registration, interleaved, and records one callback for each
delivery in turn and none else. -/
structure Dispatched (s : StepTaken S.journaled sel) : Prop where
  queued : s.batch.Perm s.told.kernel.book.pending
  batch_sorted : s.batch.Pairwise OrderBook.Before
  due_sorted : s.due.Pairwise Scheduler.Before
  interleaved : Interleaved s.batch s.due s.deliveries
  recorded : ∃ scheduler entries, s.told.scheduler.due s.now.time = .ok (s.due, scheduler) ∧
    s.after.state.journal = s.told.journal ++ entries ∧
    List.Forall₂ (Delivery.RecordedAs (κ := S.Code) scheduler s.now) s.deliveries entries

/-- No report is due twice. -/
theorem Dispatched.due_nodup {s : StepTaken S.journaled sel} (h : s.Dispatched) :
    s.due.Nodup := by
  refine h.due_sorted.imp ?_
  intro a b hbefore hsame
  subst hsame
  rcases hbefore with hlt | ⟨-, hlt⟩
  · exact Int.lt_irrefl _ hlt
  · exact Nat.lt_irrefl _ hlt

/-- What holds of all events of a batch in their order holds of two that are in the order of
delivery. -/
theorem Dispatched.batch_pairwise {s : StepTaken S.journaled sel} (h : s.Dispatched)
    {R : OrderEvent → OrderEvent → Prop} (hR : s.batch.Pairwise R) {x e : OrderEvent}
    (hx : x ∈ s.batch) (he : e ∈ s.batch) (hbefore : OrderBook.Before x e) : R x e := by
  let R' : OrderEvent → OrderEvent → Prop := fun a b =>
    (OrderBook.Before a b → R a b) ∧ (OrderBook.Before b a → R b a)
  have hboth : s.batch.Pairwise R' := by
    refine (h.batch_sorted.and hR).imp fun hab => ?_
    exact ⟨fun _ => hab.2, fun hba => absurd hba hab.1.asymm⟩
  have hne : x ≠ e := by
    intro hsame
    subst hsame
    exact hbefore.asymm hbefore
  have hsymm : Std.Symm R' := ⟨fun _ _ hab => hab.symm⟩
  exact (hboth.forall hx he hne).1 hbefore

/-- A step that does not fail is dispatched in turn, if the book before it agrees with the delivered
events and the schedules are numbered. -/
theorem Dispatched.of_step {s : StepTaken S.journaled sel}
    (hbook : s.before.state.kernel.book.Consistent s.before.state.delivered)
    (hnumbered : s.before.state.scheduler.Numbered)
    (hstep : s.before.step s.clock s.now = .ok s.after) (hnone : s.after.failure = none) :
    s.Dispatched := by
  have htold := told_consistent hbook
  have hscheduler : s.told.scheduler.Numbered := by rwa [told_scheduler hbook]
  obtain ⟨scheduler, q, hdue, hresult, hafter⟩ := dispatched hstep hnone
  obtain ⟨-, -, hsorted⟩ := Scheduler.due_answered hscheduler.ids_nodup hdue
  have hrising : s.due.Pairwise fun a b => a.time ≤ b.time := by
    refine hsorted.imp fun hbefore => ?_
    rcases hbefore with hlt | ⟨heq, -⟩
    · exact Int.le_of_lt hlt
    · exact Int.le_of_eq (congrArg DateTime.stamp heq)
  refine ⟨List.mergeSort_perm _ _, OrderBook.drain_pairwise htold.pending_nodup, hsorted,
    interleave_interleaved s.batch hrising, ?_⟩
  -- Every report is that of a schedule, so it calls for something.
  have hknown : ∀ d ∈ s.deliveries, (d.occasion? (κ := S.Code) scheduler).isSome := by
    intro d hd
    cases d with
    | event e => rfl
    | fire due =>
        have hmem : due ∈ s.due := firesOf_interleave s.batch s.due ▸ mem_firesOf.2 hd
        obtain ⟨entry, hentry⟩ := Scheduler.exists_entry_of_due hscheduler hdue hmem
        exact Option.isSome_map.trans (Option.isSome_of_eq_some hentry)
  obtain ⟨entries, hjournal, hrecorded⟩ := deliverAll_journal s.now s.deliveries hknown hresult
  refine ⟨scheduler, entries, hdue, ?_, hrecorded⟩
  rw [hafter, install_journal, hjournal, drained_journal]

end StepTaken

namespace Engine

variable {e : Engine} {S : Strategy} {fuel : Nat}

/-- Every step of a journaled run that does not fail is dispatched in turn. -/
theorem taken_dispatched {p : RunProgress S.journaled e.selector}
    (h : e.after S.journaled fuel = .ok p) :
    ∀ s ∈ e.taken S.journaled fuel, s.after.failure = none → s.Dispatched := by
  -- That the schedules are numbered is what carries this from step to step.
  refine (after_consistent_induction (P := fun past p => p.state.scheduler.Numbered ∧
    ∀ s ∈ past, s.after.failure = none → s.Dispatched)
    ⟨e.begin_numbered S.journaled, fun _ hs => absurd hs List.not_mem_nil⟩ ?_ h).2
  intro past s hbook hpast hstep
  obtain ⟨hnumbered, hdispatched⟩ := hpast
  refine ⟨RunState.step_numbered hbook hnumbered (RunProgress.step_eq hstep).1, fun x hx => ?_⟩
  rcases List.mem_append.1 hx with hx | hx
  · exact hdispatched x hx
  · obtain rfl := List.mem_singleton.1 hx
    exact fun hnone => .of_step hbook hnumbered hstep hnone

/-- A journaled run is the run, and each of its steps that does not fail is dispatched in turn. The
deliveries of such a step are in the order of time exactly if, of its events, none that is not later
than a due report follows one that is; and if any deliveries of the same events and reports, both in
their order, are in the order of time, those of the step are the same. -/
theorem dispatched_in_turn {p : RunProgress S.journaled e.selector}
    (h : e.after S.journaled fuel = .ok p) :
    e.after S fuel = .ok p.unjournaled ∧
    ∀ s ∈ e.taken S.journaled fuel, s.after.failure = none → s.Dispatched ∧
      (ByTime s.deliveries ↔
        s.batch.Pairwise fun x e => ∀ d ∈ s.due, e.time ≤ d.time → x.time ≤ d.time) ∧
      ∀ order, eventsOf order = s.batch → firesOf order = s.due → ByTime order →
        order = s.deliveries := by
  constructor
  · rw [after_unjournaled, h]
    rfl
  · intro s hs hnone
    have hdispatched := taken_dispatched h s hs hnone
    refine ⟨hdispatched, hdispatched.interleaved.byTime_iff hdispatched.due_nodup, ?_⟩
    intro order hevents hfires hbyTime
    rw [hbyTime.eq_interleave, hevents, hfires]
    rfl

/-- A strategy that schedules a daily report at half past nine, orders with its first slice, and
orders again whenever it is told of a submission; its state says whether it has ordered. -/
def echo (request : OrderRequest) : Strategy where
  State := Bool
  Code := Empty
  spec := ⟨"echo", none⟩
  initial := false
  onStart state :=
    .perform (.schedule ⟨.everyDay, .clock 9 30⟩ (.named "check")) fun _ => Strategy.idle state
  onSecuritiesChanged state _ := Strategy.idle state
  onData state _ :=
    if state then Strategy.idle state
    else .perform (.submit request) fun _ => Strategy.idle true
  onOrderEvent state e :=
    if e.status = .submitted then .perform (.submit request) fun _ => Strategy.idle state
    else Strategy.idle state
  onScheduled state _ := Strategy.idle state
  onCallback state _ := Strategy.idle state

/-- No callback of this strategy fails. -/
theorem echo_completes (request : OrderRequest) : (echo request).Completes where
  onStart state := by
    refine ⟨fun now p hp => ?_, fun _ => rfl⟩
    obtain rfl := List.mem_singleton.1 hp
    rfl
  onSecuritiesChanged _ _ := rfl
  onData state slice := by
    simp only [echo]
    split
    · rfl
    · exact ⟨fun _ _ hp => absurd hp List.not_mem_nil, fun _ => rfl⟩
  onOrderEvent state e := by
    simp only [echo]
    split
    · exact ⟨fun _ _ hp => absurd hp List.not_mem_nil, fun _ => rfl⟩
    · rfl
  onScheduled _ _ := rfl
  onCallback _ _ := rfl

/-- The strategy that buys one at the market. -/
def marketEcho : Strategy := echo ⟨.equity "SPY", 1, .market, none⟩

/-- A run of this strategy with prints on the first two dates. -/
def echoed : Engine := .sample marketEcho (.equity "SPY") [100000000, 110000000]

/-- In the second step the first order is filled, and the submission of the second one, made at the
dispatch of the first step, waits behind this fill. The report of the first date is later than that
submission and earlier than the fill. -/
theorem echoed_second : ∃ p s,
    echoed.after marketEcho.journaled echoed.span = .ok p ∧ p.failure = none ∧
    s ∈ echoed.taken marketEcho.journaled echoed.span ∧ s.after.failure = none ∧
    ∃ x ∈ s.told.kernel.book.pending, ∃ e ∈ s.told.kernel.book.pending, ∃ d ∈ s.due,
      OrderBook.Before x e ∧ e.time ≤ d.time ∧ d.time < x.time := by
  have haccepts : echoed.Accepts marketEcho.journaled := ⟨rfl, _, rfl⟩
  have hcompletes : marketEcho.Completes := echo_completes _
  obtain ⟨p, hp, hnone⟩ := after_completes hcompletes.journaled haccepts echoed.span
  obtain ⟨hnow, hall⟩ := after_unfailed hp hnone
  have hlate : ((echoed.after marketEcho.journaled 1).toOption.bind fun q =>
      (echoed.instants echoed.span)[1]?.map fun now =>
        decide (∃ x ∈ (q.state.told now).kernel.book.pending,
          ∃ e ∈ (q.state.told now).kernel.book.pending, ∃ d ∈ (q.state.told now).due now,
            OrderBook.Before x e ∧ e.time ≤ d.time ∧ d.time < x.time)) = some true := by
    decide +kernel
  have hsecond : (echoed.instants echoed.span)[1]?.isSome := by decide +kernel
  rw [← hnow, List.getElem?_map, Option.isSome_map] at hsecond
  obtain ⟨s, hs⟩ := Option.isSome_iff_exists.1 hsecond
  have hmem := List.mem_of_getElem? hs
  rw [after_before hp hs, ← hnow, List.getElem?_map, hs] at hlate
  exact ⟨p, s, hp, hnone, hmem, hall s hmem, of_decide_eq_true (Option.some.inj hlate)⟩

/-- The second step of this run is dispatched in turn, with an event behind a later one and a report
between their times. -/
theorem echoed_dispatched : ∃ p s,
    echoed.after marketEcho.journaled echoed.span = .ok p ∧
    echoed.after marketEcho echoed.span = .ok p.unjournaled ∧
    s ∈ echoed.taken marketEcho.journaled echoed.span ∧ s.after.failure = none ∧
    s.Dispatched ∧ ∃ x ∈ s.batch, ∃ e ∈ s.batch, ∃ d ∈ s.due,
      OrderBook.Before x e ∧ e.time ≤ d.time ∧ d.time < x.time := by
  obtain ⟨p, s, hp, -, hs, hnone, x, hx, e, he, d, hd, hlate⟩ := echoed_second
  obtain ⟨hrun, hsteps⟩ := dispatched_in_turn hp
  obtain ⟨hdispatched, -⟩ := hsteps s hs hnone
  exact ⟨p, s, hp, hrun, hs, hnone, hdispatched, x, hdispatched.queued.mem_iff.2 hx, e,
    hdispatched.queued.mem_iff.2 he, d, hd, hlate⟩

/-- That step does not deliver in the order of time, although no callback of the run fails. -/
theorem echoed_not_byTime : ∃ p s,
    echoed.after marketEcho.journaled echoed.span = .ok p ∧ p.failure = none ∧
    s ∈ echoed.taken marketEcho.journaled echoed.span ∧ ¬ ByTime s.deliveries := by
  obtain ⟨p, s, hp, hfailure, hs, hnone, x, hx, e, he, d, hd, hbefore, hle, hlt⟩ := echoed_second
  have hdispatched := taken_dispatched hp s hs hnone
  refine ⟨p, s, hp, hfailure, hs, fun hbyTime => ?_⟩
  have hpairwise := (hdispatched.interleaved.byTime_iff hdispatched.due_nodup).1 hbyTime
  have hearly := hdispatched.batch_pairwise hpairwise (hdispatched.queued.mem_iff.2 hx)
    (hdispatched.queued.mem_iff.2 he) hbefore d hd hle
  exact absurd hlt (Int.not_lt.2 hearly)

end Engine

end MarketReplay
