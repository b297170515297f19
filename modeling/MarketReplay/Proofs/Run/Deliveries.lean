import MarketReplay.Proofs.Run.Dispatch
import MarketReplay.Proofs.Run.OrderSteps

/-!
# When order events are delivered

What a book queues at an instant are events of that instant (`OrderBook.Queued`). A step drains, and
delivers, what was queued before its dispatch; what its dispatch queues is left to the next step
(`StepTaken.Delivers`). So in a run without a failure every order event is delivered once, at its
own instant or, if a callback of a dispatch created it, in the next step, and the events created by
the last dispatch are the ones left over (`Engine.events_delivered_once`).
-/

namespace MarketReplay

/-! ### Queued events -/

namespace OrderBook

/-- The events in the queue of a book behind as many as are in the queue of another. -/
def gained (b b' : OrderBook) : List OrderEvent := b'.pending.drop b.pending.length

/-- A book and what is made of it at an instant: more events are queued, all of the instant. -/
structure Queued (now : Instant) (b b' : OrderBook) : Prop where
  pending_eq : b'.pending = b.pending ++ gained b b'
  time_eq : ∀ e ∈ gained b b', e.time = now.time

namespace Queued

variable {now : Instant} {b b' b'' : OrderBook}

/-- A queue with more events of the instant at its end. -/
theorem of_append {more : List OrderEvent} (h : b'.pending = b.pending ++ more)
    (hmore : ∀ e ∈ more, e.time = now.time) : Queued now b b' := by
  have hgained : gained b b' = more := by
    unfold gained
    rw [h, List.drop_left]
  exact ⟨hgained ▸ h, hgained ▸ hmore⟩

theorem refl (now : Instant) (b : OrderBook) : Queued now b b :=
  of_append (List.append_nil _).symm fun _ he => absurd he List.not_mem_nil

theorem trans (h : Queued now b b') (h' : Queued now b' b'') : Queued now b b'' := by
  have hpending : b''.pending = b.pending ++ (gained b b' ++ gained b' b'') := by
    rw [h'.pending_eq, h.pending_eq, List.append_assoc]
  refine of_append hpending fun e he => ?_
  rcases List.mem_append.1 he with he | he
  · exact h.time_eq e he
  · exact h'.time_eq e he

/-- One more event of the instant. -/
theorem snoc (h : Queued now b b') {e : OrderEvent} (hpending : b''.pending = b'.pending ++ [e])
    (he : e.time = now.time) : Queued now b b'' := by
  refine h.trans (of_append hpending fun x hx => ?_)
  rw [List.mem_singleton.1 hx]
  exact he

end Queued

/-- Submissions and cancellations queue events of their instant. -/
theorem queued_keptAt (now : Instant) (b : OrderBook) : KeptAt now (Queued now b) where
  submit := by
    intro b' b'' request tracked cash order h hsubmit
    obtain ⟨warnings, -, rfl, rfl⟩ := submit_eq_ok hsubmit
    exact h.snoc rfl rfl
  cancel := by
    intro b' b'' id e h hcancel
    obtain ⟨order, -, -, rfl, rfl⟩ := cancel_eq_ok hcancel
    exact h.snoc rfl rfl

/-- An event of a matching is that of an order that the slice fills. -/
theorem mem_matchAll {calendar : Calendar} {now : Instant} {slice : DataSlice} {seq : Nat}
    {orders : List Order} {e : OrderEvent} (h : e ∈ (matchAll calendar now slice seq orders).2) :
    ∃ order ∈ orders, ∃ filled n, fill? calendar now slice order = some filled ∧
      e = filled.event now n := by
  induction orders generalizing seq with
  | nil => cases h
  | cons order rest ih =>
      rw [matchAll] at h
      cases hfill : fill? calendar now slice order with
      | none =>
          rw [hfill] at h
          obtain ⟨other, hother, hevent⟩ := ih h
          exact ⟨other, List.mem_cons_of_mem _ hother, hevent⟩
      | some filled =>
          rw [hfill] at h
          rcases List.mem_cons.1 h with rfl | h
          · exact ⟨order, List.mem_cons_self, filled, seq, hfill, rfl⟩
          · obtain ⟨other, hother, hevent⟩ := ih h
            exact ⟨other, List.mem_cons_of_mem _ hother, hevent⟩

/-- A matching queues its fills. -/
theorem evaluate_queued (b : OrderBook) (now : Instant) (slice : DataSlice) :
    Queued now b (b.evaluate now slice).2 := by
  refine .of_append rfl fun e he => ?_
  obtain ⟨order, -, filled, n, -, rfl⟩ := mem_matchAll he
  rfl

end OrderBook

namespace RunState

variable {S : Strategy} {sel : Selector}

/-- Up to its dispatch a step queues events of its instant. -/
theorem told_queued (r : RunState S sel) (now : Instant) :
    OrderBook.Queued now r.kernel.book (r.told now).kernel.book := by
  refine notify_book (OrderBook.queued_keptAt now r.kernel.book) ?_ _ _
  exact r.kernel.book.evaluate_queued now _

/-- Up to its dispatch a step delivers no order event. -/
theorem told_delivered (r : RunState S sel) (now : Instant) :
    (r.told now).delivered = r.delivered :=
  (notify_keeps (r.market now).2.2 now (r.market now).1 (r.market now).2.1).1

/-- Deliveries after a drain record their events, if none fails. -/
theorem delivered_of_drained {r r' : RunState S sel} {scheduler : Scheduler S.Code}
    {now : Instant} {deliveries : List Delivery}
    (h : deliverAll now deliveries (r.drained scheduler) = (r', none)) :
    r'.delivered = r.delivered ++ eventsOf deliveries := by
  have hdelivered := deliverAll_delivered now deliveries (r.drained scheduler)
  rw [leftOver_eq_nil (congrArg Prod.snd h), List.append_nil, h] at hdelivered
  exact hdelivered

end RunState

/-! ### Events through a step -/

namespace StepTaken

variable {S : Strategy} {sel : Selector}

/-- The events that a step queues before its dispatch: by fills, and by the callbacks for changes
and data. -/
def early (s : StepTaken S sel) : List OrderEvent :=
  OrderBook.gained s.before.state.kernel.book s.told.kernel.book

/-- The events that the callbacks of a step's dispatch queue. -/
def late (s : StepTaken S sel) : List OrderEvent :=
  OrderBook.gained s.told.kernel.book.drain.2 s.after.state.kernel.book

/-- A step that owes some events: its dispatch drains them and those that the step queued before,
and the strategy is told of each of them once in that order, and of no other. All that the step
queues is of its instant. -/
structure Delivers (s : StepTaken S.journaled sel) (owed : List OrderEvent) : Prop where
  batch_perm : s.batch.Perm (owed ++ s.early)
  early_time : ∀ e ∈ s.early, e.time = s.now.time
  late_time : ∀ e ∈ s.late, e.time = s.now.time
  recorded : ∃ entries, s.after.state.journal = s.before.state.journal ++ entries ∧
    entries.filterMap JournalEntry.event? = s.batch ∧ ∀ x ∈ entries, x.instant = s.now

/-- What is queued after a step that does not fail was queued by its dispatch. -/
theorem pending_after {s : StepTaken S sel} (hstep : s.before.step s.clock s.now = .ok s.after)
    (hnone : s.after.failure = none) :
    s.after.state.kernel.book.pending = s.late ∧ ∀ e ∈ s.late, e.time = s.now.time := by
  obtain ⟨scheduler, q, -, hresult, hafter⟩ := dispatched hstep hnone
  have hqueued := RunState.deliverAll_book
    (OrderBook.queued_keptAt s.now s.told.kernel.book.drain.2) s.deliveries
    (r := s.told.drained scheduler) (.refl _ _)
  rw [hresult] at hqueued
  unfold late
  rw [hafter]
  exact ⟨hqueued.pending_eq, hqueued.time_eq⟩

/-- A step that is dispatched in turn delivers what it owes. -/
theorem Dispatched.delivers {s : StepTaken S.journaled sel} (h : s.Dispatched)
    (hstep : s.before.step s.clock s.now = .ok s.after) (hnone : s.after.failure = none) :
    s.Delivers s.before.state.kernel.book.pending := by
  have hqueued := s.before.state.told_queued s.now
  refine ⟨?_, hqueued.time_eq, (pending_after hstep hnone).2, ?_⟩
  · have hpending : s.told.kernel.book.pending =
        s.before.state.kernel.book.pending ++ s.early := hqueued.pending_eq
    rw [← hpending]
    exact h.queued
  · obtain ⟨scheduler, entries, -, hjournal, hrecorded⟩ := h.recorded
    obtain ⟨first, hfirst, hquiet⟩ := RunState.notify_journal (s.before.state.market s.now).2.2
      s.now (s.before.state.market s.now).1 (s.before.state.market s.now).2.1
    have htold : s.told.journal = s.before.state.journal ++ first := hfirst
    obtain ⟨hevents, hinstants⟩ := events_of_recorded hrecorded
    refine ⟨first ++ entries, ?_, ?_, fun x hx => ?_⟩
    · rw [hjournal, htold, List.append_assoc]
    · have hnothing : first.filterMap JournalEntry.event? = [] :=
        List.filterMap_eq_nil_iff.2 fun x hx => (hquiet x hx).2
      rw [List.filterMap_append, hnothing, hevents]
      exact h.interleaved.events_eq
    · rcases List.mem_append.1 hx with hx | hx
      · exact (hquiet x hx).1
      · exact hinstants x hx

/-- A step that does not fail records the delivery of its batch. -/
theorem delivered_after {s : StepTaken S sel} (hstep : s.before.step s.clock s.now = .ok s.after)
    (hnone : s.after.failure = none) :
    s.after.state.delivered = s.before.state.delivered ++ s.batch := by
  obtain ⟨scheduler, q, -, hresult, hafter⟩ := dispatched hstep hnone
  have hinstall : q.install.delivered = q.delivered := rfl
  have htold : s.told.delivered = s.before.state.delivered := s.before.state.told_delivered s.now
  have hevents : RunState.eventsOf s.deliveries = s.batch :=
    RunState.eventsOf_interleave s.batch s.due
  rw [hafter, hinstall, RunState.delivered_of_drained hresult, htold, hevents]

end StepTaken

/-! ### Events through a run -/

namespace Engine

variable {e : Engine} {S : Strategy} {fuel : Nat}

/-- The events owed to a strategy after some steps: those that the last one queued in its dispatch,
or those that the strategy queued when it was initialized. -/
def owed (e : Engine) (S : Strategy) (past : List (StepTaken S e.selector)) : List OrderEvent :=
  match past.getLast? with
  | none => (e.begin S).state.kernel.book.pending
  | some s => s.late

theorem owed_concat (past : List (StepTaken S e.selector)) (s : StepTaken S e.selector) :
    e.owed S (past ++ [s]) = s.late := by
  unfold owed
  rw [List.getLast?_concat]

/-- An initialized strategy owes events of the initial instant, and was told of none. -/
theorem begin_owed (e : Engine) (S : Strategy) :
    (∀ ev ∈ e.owed S.journaled [], ev.time = e.initial.time) ∧
      (e.begin S.journaled).state.journal.filterMap JournalEntry.event? = [] := by
  let start := RunState.start S.journaled e.selector e.settings e.prices e.contracts
  have hqueued := RunState.call_book (r := start)
    (OrderBook.queued_keptAt e.initial start.kernel.book) (.refl _ _) "initialize"
    S.journaled.onStart
  obtain ⟨entries, hjournal, hquiet⟩ := start.call_journal e.initial "initialize" .start
    (fun state => S.onStart state) fun _ _ => rfl
  constructor
  · intro ev hev
    refine hqueued.time_eq ev ?_
    have hpending : e.owed S.journaled [] = [] ++ OrderBook.gained start.kernel.book
      (start.call e.initial "initialize" S.journaled.onStart).1.kernel.book := hqueued.pending_eq
    rwa [hpending] at hev
  · have hbegin : (e.begin S.journaled).state.journal = [] ++ entries := hjournal
    rw [hbegin, List.nil_append]
    exact List.filterMap_eq_nil_iff.2 fun x hx => (hquiet x hx).2

/-- A run in progress that delivered what its steps owed and has the rest in its queue. -/
structure Delivered (e : Engine) (S : Strategy) (past : List (StepTaken S.journaled e.selector))
    (p : RunProgress S.journaled e.selector) : Prop where
  pending_eq : p.state.kernel.book.pending = e.owed S.journaled past
  delivered_eq : p.state.delivered = past.flatMap StepTaken.batch
  journal_eq : p.state.journal.filterMap JournalEntry.event? = past.flatMap StepTaken.batch
  delivers : ∀ front s back, past = front ++ s :: back → s.Delivers (e.owed S.journaled front)

/-- One more step delivers what is owed. -/
theorem Delivered.step {past : List (StepTaken S.journaled e.selector)}
    {s : StepTaken S.journaled e.selector} (h : e.Delivered S past s.before)
    (hstep : s.before.step s.clock s.now = .ok s.after) (hnone : s.after.failure = none)
    (hdispatched : s.Dispatched) : e.Delivered S (past ++ [s]) s.after := by
  have hdelivers := hdispatched.delivers hstep hnone
  rw [h.pending_eq] at hdelivers
  obtain ⟨entries, hjournal, hevents, -⟩ := hdelivers.recorded
  have hbatches : (past ++ [s]).flatMap StepTaken.batch =
      past.flatMap StepTaken.batch ++ s.batch := by simp
  refine ⟨?_, ?_, ?_, fun front x back hsplit => ?_⟩
  · rw [owed_concat]
    exact (StepTaken.pending_after hstep hnone).1
  · rw [StepTaken.delivered_after hstep hnone, h.delivered_eq, hbatches]
  · rw [hjournal, List.filterMap_append, h.journal_eq, hevents, hbatches]
  · rcases split_concat hsplit with ⟨rfl, rfl⟩ | ⟨init, -, hpast⟩
    · exact hdelivers
    · exact h.delivers front x init hpast

/-- A run whose steps do not fail delivers what they owe. -/
theorem after_delivered {p : RunProgress S.journaled e.selector}
    (h : e.after S.journaled fuel = .ok p) (hnone : p.failure = none) :
    e.Delivered S (e.taken S.journaled fuel) p := by
  have hall : ∀ s ∈ e.taken S.journaled fuel, s.after.failure = none ∧ s.Dispatched := by
    intro s hs
    have hfailure := (after_unfailed h hnone).2 s hs
    exact ⟨hfailure, taken_dispatched h s hs hfailure⟩
  refine after_consistent_induction (P := fun past p =>
    (∀ s ∈ past, s.after.failure = none ∧ s.Dispatched) → e.Delivered S past p) ?_ ?_ h hall
  · exact fun _ => ⟨rfl, rfl, (e.begin_owed S).2,
      fun front s back hsplit => absurd hsplit.symm (by simp)⟩
  · intro past s _ hpast hstep hsteps
    obtain ⟨hnone, hdispatched⟩ := hsteps s List.mem_concat_self
    have hbefore := hpast fun x hx => hsteps x (List.mem_append_left _ hx)
    exact hbefore.step hstep hnone hdispatched

/-- Take a run without a failure, and journal it, which changes nothing. It takes a step at every
instant of its clock, the first one at the instant of the initialization. The events that the
strategy queued when it was initialized are delivered by the first step, those that a step queued
before its dispatch by this step, those that its dispatch queued by the next step, and all of them
are of the instant at which they were queued. Those that the last dispatch queued are left over, and
stand in the log behind the delivered ones. The log is complete: every event is in it once, and in
it the submission of every order precedes its end. -/
theorem events_delivered_once {result : RunResult} (h : e.run = .ok result)
    (hok : result.failure = none) :
    ∃ (S : Strategy) (p : RunProgress S.journaled e.selector)
        (front : List (StepTaken S.journaled e.selector))
        (last : StepTaken S.journaled e.selector) (tail : List OrderEvent),
      e.host.strategy = .ok S ∧ e.after S.journaled e.span = .ok p ∧
      result = e.result S p.unjournaled ∧
      e.taken S.journaled e.span = front ++ [last] ∧
      (front ++ [last]).map StepTaken.now = e.instants e.span ∧
      (e.instants e.span).head? = some e.initial ∧
      (∀ ev ∈ e.owed S.journaled [], ev.time = e.initial.time) ∧
      (∀ past (s : StepTaken S.journaled e.selector) later,
        front ++ [last] = past ++ s :: later → s.Delivers (e.owed S.journaled past)) ∧
      result.orderEvents = p.state.journal.filterMap JournalEntry.event? ++ tail ∧
      tail.Perm last.late ∧
      CompleteLog result.orders result.orderEvents := by
  obtain ⟨S, q, hS, hafter, rfl⟩ := run_eq h
  -- The journaled run is what the run is without its journal.
  rw [after_unjournaled] at hafter
  cases hp : e.after S.journaled e.span with
  | error failure =>
      rw [hp] at hafter
      cases hafter
  | ok p =>
      rw [hp] at hafter
      obtain rfl := Except.ok.inj hafter
      have hnone : p.failure = none := hok
      obtain ⟨hnow, -⟩ := after_unfailed hp hnone
      have hdelivered := after_delivered hp hnone
      obtain ⟨clock, hclock⟩ := exists_clock hp
      obtain ⟨rest, hfirst⟩ := exists_instants hclock
      have hconsistent : p.state.kernel.book.Consistent p.state.delivered := by
        have haccounts := after_accounts hp
        rw [hnone] at haccounts
        exact haccounts.to_consistent
      rcases List.eq_nil_or_concat (e.taken S.journaled e.span) with hnil | ⟨front, last, hlast⟩
      · rw [hnil, hfirst] at hnow
        cases hnow
      · rw [List.concat_eq_append] at hlast
        have hpending : p.state.kernel.book.pending = last.late := by
          rw [hdelivered.pending_eq, hlast, owed_concat]
        have hlog : (e.result S p.unjournaled).orderEvents =
            p.state.journal.filterMap JournalEntry.event? ++ p.state.kernel.book.drain.1 := by
          rw [hdelivered.journal_eq, ← hdelivered.delivered_eq]
          rfl
        refine ⟨S, p, front, last, p.state.kernel.book.drain.1, hS, hp, rfl, hlast, ?_, ?_,
          (e.begin_owed S).1, ?_, hlog, ?_, ?_⟩
        · rw [← hlast, hnow]
        · rw [hfirst]
          rfl
        · rw [← hlast]
          exact hdelivered.delivers
        · rw [← hpending]
          exact List.mergeSort_perm _ _
        · have hcomplete := hconsistent.drain.completeLog
          rwa [OrderBook.log, show p.state.kernel.book.drain.2.pending = [] from rfl,
            List.append_nil] at hcomplete

/-- The strategy that orders one for the opening. -/
def openingEcho : Strategy := echo ⟨.equity "SPY", 1, .marketOnOpen, none⟩

/-- A run of this strategy with a print that has no opening, so that no order is filled. -/
def relayed : Engine := .sample openingEcho (.equity "SPY") [100000000]

/-- An order of the first date is answered on the same date by another one, and then one on each
date. The submission of the last one is left over. -/
theorem relayed_delivered : ∃ result, relayed.run = .ok result ∧ result.failure = none ∧
    result.orderEvents.map (fun e => (e.orderId, e.status)) =
      [(1, .submitted), (2, .submitted), (3, .submitted), (4, .submitted), (5, .submitted),
        (6, .submitted)] ∧
    ∃ (p : RunProgress openingEcho.journaled relayed.selector) (tail : List OrderEvent),
      relayed.after openingEcho.journaled relayed.span = .ok p ∧
      result.orderEvents = p.state.journal.filterMap JournalEntry.event? ++ tail ∧
      tail.map OrderEvent.orderId = [6] ∧ CompleteLog result.orders result.orderEvents := by
  have hrun : relayed.run.toOption.map (fun r => (r.failure, r.orderEvents.map fun e =>
      (e.orderId, e.status))) = some (none,
        [(1, .submitted), (2, .submitted), (3, .submitted), (4, .submitted), (5, .submitted),
          (6, .submitted)]) := by
    decide +kernel
  have hlate : (relayed.taken openingEcho.journaled relayed.span).getLast?.map (fun s =>
      s.late.map OrderEvent.orderId) = some [6] := by
    decide +kernel
  obtain ⟨result, hresult, hfacts⟩ := Option.map_eq_some_iff.1 hrun
  obtain ⟨hnone, hevents⟩ := Prod.mk.inj hfacts
  obtain ⟨S, p, front, last, tail, hS, hp, -, htaken, -, -, -, -, hlog, htail, hcomplete⟩ :=
    events_delivered_once (eq_ok_of_toOption hresult) hnone
  obtain rfl : openingEcho = S := Except.ok.inj hS
  rw [htaken, List.getLast?_concat] at hlate
  refine ⟨result, eq_ok_of_toOption hresult, hnone, hevents, p, tail, hp, hlog, ?_, hcomplete⟩
  refine List.perm_singleton.1 ?_
  rw [← Option.some.inj hlate]
  exact htail.map _

end Engine

end MarketReplay
