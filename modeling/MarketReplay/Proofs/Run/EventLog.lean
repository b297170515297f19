import MarketReplay.Proofs.Grouping
import MarketReplay.Proofs.Run.Phases
import MarketReplay.Proofs.Run.Steps

/-!
# The event log of a result

A step that is aborted while it delivers order events leaves over the events that it had drained
and not reached; `Engine.lost` are those of a run. `complete_iff_lost_eq_nil` says that the event
log of a result is complete exactly when there are none, and in any case which events it lacks.
-/

namespace MarketReplay

/-- The events of orders: every event has its own sequence number from 0 on, every order has the
event of its submission followed, once it is closed, by that of its final state, and there is no
other event. -/
structure CompleteLog (orders : List Order) (events : List OrderEvent) : Prop where
  seqs : (events.map OrderEvent.seq).Perm (List.range events.length)
  logged : ∀ o ∈ orders, o.Logged (events.filter fun e => e.orderId = o.id)
  owned : ∀ e ∈ events, ∃ o ∈ orders, e.orderId = o.id

namespace OrderBook

/-- The log of a consistent book is complete. -/
theorem Consistent.completeLog {b : OrderBook} {past : List OrderEvent} (h : Consistent b past) :
    CompleteLog b.orders (b.log past) := by
  refine ⟨?_, h.logged, h.owned⟩
  have hlength : (b.log past).length = b.nextSeq := by
    simpa using h.seqs.length_eq
  rw [hlength]
  exact h.seqs

end OrderBook

namespace RunState

variable {S : Strategy} {sel : Selector}

/-- The events that a dispatch drains and does not deliver. -/
def undelivered (r : RunState S sel) (now : Instant) : List OrderEvent :=
  match r.scheduler.due now.time with
  | .error _ => []
  | .ok (due, scheduler) =>
    leftOver now (interleave r.kernel.book.drain.1 due) (r.drained scheduler)

/-- The events that a step drains and does not deliver. -/
def lost (r : RunState S sel) (now : Instant) : List OrderEvent :=
  let (changes, slice, matched) := r.market now
  match matched.notify now changes slice with
  | (_, some _) => []
  | (r', none) => r'.undelivered now

/-- The book of a state fits its delivered events and others that were lost; what was lost was
lost to a failure of the dispatch phase. -/
structure Accounts (r : RunState S sel) (failure : Option RunFailure) (lost : List OrderEvent) :
    Prop where
  consistent : r.kernel.book.Consistent (r.delivered ++ lost)
  lost_eq_nil : failure = none → lost = []
  failed : lost ≠ [] → ∃ f, failure = some f ∧ InDispatch f

/-- With nothing lost the book fits the delivered events. -/
theorem Accounts.of_consistent {r : RunState S sel} (failure : Option RunFailure)
    (h : r.kernel.book.Consistent r.delivered) : Accounts r failure [] := by
  refine ⟨?_, fun _ => rfl, fun hne => absurd rfl hne⟩
  rwa [List.append_nil]

/-- Before a failure the book fits the delivered events. -/
theorem Accounts.to_consistent {r : RunState S sel} {lost : List OrderEvent}
    (h : Accounts r none lost) : r.kernel.book.Consistent r.delivered := by
  have hconsistent := h.consistent
  rwa [h.lost_eq_nil rfl, List.append_nil] at hconsistent

/-- Installing schedules changes neither book nor delivered events. -/
theorem Accounts.install {r : RunState S sel} {failure : Option RunFailure}
    {lost : List OrderEvent} (h : Accounts r failure lost) : Accounts r.install failure lost :=
  ⟨h.consistent, h.lost_eq_nil, h.failed⟩

/-- Universe, slice and matching keep the book in agreement with the delivered events. -/
theorem market_consistent {r : RunState S sel} (h : r.kernel.book.Consistent r.delivered)
    (now : Instant) :
    (r.market now).2.2.kernel.book.Consistent (r.market now).2.2.delivered :=
  (OrderBook.evaluate_edits _ now _).consistent h

/-- A dispatch delivers what it drains, or fails and leaves the rest over. -/
theorem dispatch_accounts {r r' : RunState S sel} {now : Instant} {failure : Option RunFailure}
    (hr : r.kernel.book.Consistent r.delivered) (h : r.dispatch now = .ok (r', failure)) :
    Accounts r' failure (r.undelivered now) := by
  obtain ⟨due, scheduler, hdue, hresult⟩ := dispatch_eq h
  unfold undelivered
  rw [hdue]
  simp only
  have hbook := drained_consistent hr scheduler
  have hcalled := deliverAll_called now (interleave r.kernel.book.drain.1 due) hbook
  have hdelivered := deliverAll_delivered now (interleave r.kernel.book.drain.1 due)
    (r.drained scheduler)
  rw [hresult] at hcalled hdelivered
  rw [eventsOf_interleave, show (r.drained scheduler).delivered = r.delivered from rfl]
    at hdelivered
  refine ⟨?_, fun hnone => ?_, fun hne => ?_⟩
  · -- What was delivered and what is left over are together what was drained.
    rw [hdelivered]
    exact hcalled.kernel.consistent hbook
  · exact leftOver_eq_nil (by rw [hresult]; exact hnone)
  · cases hfailure : failure with
    | none => exact absurd (leftOver_eq_nil (by rw [hresult]; exact hfailure)) hne
    | some f => exact ⟨f, rfl, deliverAll_inDispatch (by rw [hresult]; exact hfailure)⟩

/-- A step accounts for every event that the book created. -/
theorem step_accounts {r r' : RunState S sel} {now : Instant} {failure : Option RunFailure}
    (hr : r.kernel.book.Consistent r.delivered) (h : r.step now = .ok (r', failure)) :
    Accounts r' failure (r.lost now) := by
  have hmarket := market_consistent hr now
  unfold lost
  simp only
  obtain ⟨q, f, hfailed, rfl, rfl⟩ | ⟨q, q', hdone, hdispatch, rfl⟩ := step_cases h
  · rw [hfailed]
    exact (Accounts.of_consistent _ (notify_consistent hmarket hfailed)).install
  · rw [hdone]
    exact (dispatch_accounts (notify_consistent hmarket hdone) hdispatch).install

/-- Initializing a strategy accounts for the events of its orders. -/
theorem launch_accounts (S : Strategy) (sel : Selector) (settings : RunSettings)
    (prices : SeriesLookup) (contracts : ContractLookup) (now : Instant) :
    Accounts ((start S sel settings prices contracts).launch now).1
      ((start S sel settings prices contracts).launch now).2 [] := by
  have hstart : (start S sel settings prices contracts).kernel.book.Consistent [] :=
    OrderBook.consistent_start _ _
  have hcalled := call_called hstart now "initialize" S.onStart
  exact (Accounts.of_consistent _ (hcalled.kernel.consistent hstart)).install

end RunState

namespace Engine

/-- The events lost by the steps of a list. -/
def lostBy {S : Strategy} {sel : Selector} (taken : List (StepTaken S sel)) : List OrderEvent :=
  taken.flatMap fun s => s.before.state.lost s.now

/-- The events lost by a run: created, and neither delivered nor left in the queue. -/
def lost (e : Engine) : List OrderEvent :=
  match e.host.strategy with
  | .error _ => []
  | .ok S => lostBy (e.taken S e.span)

/-- Initializing a strategy loses no event. -/
theorem begin_accounts (e : Engine) (S : Strategy) :
    (e.begin S).state.Accounts (e.begin S).failure (lostBy ([] : List (StepTaken S e.selector))) :=
  RunState.launch_accounts S e.selector e.settings e.prices e.contracts _

/-- A step of a run adds its lost events to those of the steps before, of which there are none. -/
theorem snoc_accounts {S : Strategy} {sel : Selector} {past : List (StepTaken S sel)}
    {s : StepTaken S sel} (hbefore : s.before.state.Accounts s.before.failure (lostBy past))
    (hnone : s.before.failure = none) (hstep : s.before.step s.clock s.now = .ok s.after) :
    s.after.state.Accounts s.after.failure (lostBy (past ++ [s])) := by
  rw [hnone] at hbefore
  have hlost : lostBy (past ++ [s]) = s.before.state.lost s.now := by
    have hpast : lostBy past = [] := hbefore.lost_eq_nil rfl
    rw [lostBy] at hpast ⊢
    rw [List.flatMap_append, hpast]
    exact List.append_nil _
  rw [hlost]
  exact RunState.step_accounts hbefore.to_consistent (RunProgress.step_eq hstep).1

/-- After any number of steps the book fits the delivered and the lost events. -/
theorem after_accounts {e : Engine} {S : Strategy} {fuel : Nat} {p : RunProgress S e.selector}
    (h : e.after S fuel = .ok p) : p.state.Accounts p.failure (lostBy (e.taken S fuel)) :=
  after_induction (P := fun past p => p.state.Accounts p.failure (lostBy past))
    (e.begin_accounts S) (fun _ _ hbefore hnone hstep => snoc_accounts hbefore hnone hstep) h

/-- Induction over the steps of a run, where before each step the book fits the delivered
events. -/
theorem after_consistent_induction {e : Engine} {S : Strategy}
    {P : List (StepTaken S e.selector) → RunProgress S e.selector → Prop}
    (hbegin : P [] (e.begin S))
    (hstep : ∀ (past : List (StepTaken S e.selector)) (s : StepTaken S e.selector),
      s.before.state.kernel.book.Consistent s.before.state.delivered → P past s.before →
      s.before.step s.clock s.now = .ok s.after → P (past ++ [s]) s.after)
    {fuel : Nat} {p : RunProgress S e.selector} (h : e.after S fuel = .ok p) :
    P (e.taken S fuel) p := by
  refine (after_induction (P := fun past p =>
    p.state.Accounts p.failure (lostBy past) ∧ P past p) ⟨e.begin_accounts S, hbegin⟩ ?_ h).2
  rintro past s ⟨haccounts, hpast⟩ hnone htaken
  have hconsistent : s.before.state.kernel.book.Consistent s.before.state.delivered := by
    rw [hnone] at haccounts
    exact haccounts.to_consistent
  exact ⟨snoc_accounts haccounts hnone htaken, hstep past s hconsistent hpast htaken⟩

end Engine

/-! ### Complete logs -/

/-- The number of an order's events. -/
theorem Order.Logged.length_eq {o : Order} {events : List OrderEvent} (h : o.Logged events) :
    events.length = if o.status = .submitted then 1 else 2 := by
  cases h with
  | opened _ hopen => simp [hopen]
  | closed _ _ _ hclosed => simp [hclosed]

/-- The number of fills among an order's events. -/
theorem Order.Logged.fills_eq {o : Order} {events : List OrderEvent} (h : o.Logged events) :
    (events.filter OrderEvent.isFill).length = if o.status = .filled then 1 else 0 := by
  cases h with
  | opened _ hopen => simp [OrderEvent.isFill, Order.event, Order.opening, hopen]
  | closed => by_cases hfilled : o.status = .filled <;>
      simp [OrderEvent.isFill, Order.event, Order.opening, hfilled]

namespace CompleteLog

variable {orders : List Order} {events : List OrderEvent}

/-- A complete log has one fill for each filled order. -/
theorem fills_length (h : CompleteLog orders events) (hnodup : (orders.map Order.id).Nodup) :
    (events.filter OrderEvent.isFill).length =
      (orders.filter fun o => o.status = .filled).length := by
  have hcover : ∀ e ∈ events.filter OrderEvent.isFill, e.orderId ∈ orders.map Order.id := by
    intro e he
    obtain ⟨o, ho, hid⟩ := h.owned e (List.mem_filter.1 he).1
    exact hid ▸ List.mem_map_of_mem ho
  have hgroup : ∀ o ∈ orders, ((events.filter OrderEvent.isFill).filter fun e =>
      e.orderId = o.id).length = if o.status = .filled then 1 else 0 := by
    intro o ho
    rw [List.filter_comm]
    exact (h.logged o ho).fills_eq
  rw [length_eq_sum_groups OrderEvent.orderId hnodup hcover, List.map_map,
    ← sum_indicator_eq_length]
  exact congrArg List.sum (List.map_congr_left hgroup)

/-- Events without which a complete log is still complete are none: each would be missing in the
events of its order. -/
theorem eq_nil_of_append {front lost back : List OrderEvent}
    (h : CompleteLog orders (front ++ lost ++ back)) (hless : CompleteLog orders (front ++ back)) :
    lost = [] := by
  refine List.eq_nil_iff_forall_not_mem.2 fun e he => ?_
  obtain ⟨o, ho, hid⟩ := h.owned e (List.mem_append_left _ (List.mem_append_right _ he))
  have hlength := (h.logged o ho).length_eq.trans (hless.logged o ho).length_eq.symm
  have hmem : e ∈ lost.filter fun e => e.orderId = o.id :=
    List.mem_filter.2 ⟨he, decide_eq_true hid⟩
  have hpos := List.length_pos_of_mem hmem
  simp only [List.filter_append, List.length_append] at hlength
  omega

end CompleteLog

namespace Engine

/-- The event log of a result together with the events that the run lost is complete, so the log
is complete exactly if the run lost none. A run loses events only to a callback that fails in the
dispatch phase, and it counts as many fills as there are filled orders, less those lost. -/
theorem complete_iff_lost_eq_nil {e : Engine} {result : RunResult} (h : e.run = .ok result) :
    (∃ delivered queued, result.orderEvents = delivered ++ queued ∧
      CompleteLog result.orders (delivered ++ e.lost ++ queued)) ∧
    (CompleteLog result.orders result.orderEvents ↔ e.lost = []) ∧
    (e.lost ≠ [] → ∃ failure, result.failure = some failure ∧ RunState.InDispatch failure) ∧
    result.fills.length + (e.lost.filter OrderEvent.isFill).length =
      (result.orders.filter fun o => o.status = .filled).length := by
  obtain ⟨S, p, hS, hafter, rfl⟩ := run_eq h
  have hlost : e.lost = lostBy (e.taken S e.span) := by simp [lost, hS]
  have haccounts := after_accounts hafter
  rw [← hlost] at haccounts
  have hcomplete : CompleteLog p.state.kernel.book.orders
      (p.state.delivered ++ e.lost ++ p.state.kernel.book.drain.1) := by
    have hdrained := haccounts.consistent.drain.completeLog
    rwa [OrderBook.log, show p.state.kernel.book.drain.2.pending = [] from rfl,
      List.append_nil] at hdrained
  refine ⟨⟨_, _, rfl, hcomplete⟩, ⟨fun hless => hcomplete.eq_nil_of_append hless, fun hnil => ?_⟩,
    haccounts.failed, ?_⟩
  · rw [hnil, List.append_nil] at hcomplete
    exact hcomplete
  · have hfills := hcomplete.fills_length haccounts.consistent.ids_nodup
    simp only [List.filter_append, List.length_append] at hfills
    simp only [RunResult.fills, result, List.filter_append, List.length_append]
    omega

/-- A strategy that buys with its first slice and fails at the first report of its daily schedule;
its state says whether it has bought. -/
def scheduleRefuser (symbol : Symbol) : Strategy where
  State := Bool
  Code := Empty
  spec := ⟨"schedule-refuser", none⟩
  initial := false
  onStart state :=
    .perform (.schedule ⟨.everyDay, .clock 9 30⟩ (.named "check")) fun _ => Strategy.idle state
  onSecuritiesChanged state _ := Strategy.idle state
  onData state _ :=
    if state then Strategy.idle state
    else .perform (.market symbol 1) fun _ => Strategy.idle true
  onOrderEvent state _ := Strategy.idle state
  onScheduled state _ := .done ⟨state, some (.message "stop")⟩
  onCallback state _ := Strategy.idle state

/-- A run with two prints. The order is filled on the second date, and the schedule of the first
date, due before the fill, fails then. -/
def brokenOff : Engine :=
  .sample (scheduleRefuser (.equity "SPY")) (.equity "SPY") [100000000, 110000000]

/-- The log of the broken-off run lacks an event: its order is filled, and no fill is logged. -/
theorem brokenOff_not_complete : ∃ result, brokenOff.run = .ok result ∧
    brokenOff.lost.map OrderEvent.status = [.filled] ∧
    (result.orders.filter fun o => o.status = .filled).length = 1 ∧ result.fills = [] ∧
    ¬ CompleteLog result.orders result.orderEvents := by
  have hlost : brokenOff.lost.map OrderEvent.status = [.filled] := by decide +kernel
  have hresult : brokenOff.run.toOption.map (fun r =>
      ((r.orders.filter fun o => o.status = .filled).length, r.fills)) = some (1, []) := by
    decide +kernel
  cases hrun : brokenOff.run with
  | error failure => simp [hrun, Except.toOption] at hresult
  | ok result =>
      simp only [hrun, Except.toOption, Option.map_some, Option.some.injEq,
        Prod.mk.injEq] at hresult
      refine ⟨result, rfl, hlost, hresult.1, hresult.2, fun h => ?_⟩
      rw [(complete_iff_lost_eq_nil hrun).2.1.1 h] at hlost
      exact absurd hlost (by decide)

end Engine

end MarketReplay
