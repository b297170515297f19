import MarketReplay.Proofs.Order.Cancellations
import MarketReplay.Proofs.Order.Lifecycle
import MarketReplay.Proofs.Portfolio.Booking
import MarketReplay.Proofs.Strategy.Commands

/-!
# Liquidation

A liquidation cancels the open orders on its target and submits one market order for each position
there, in turn until one is refused (`Kernel.liquidate_cases`). If none is refused, positions and
open orders of the target come to zero (`Kernel.liquidate_flattens`). If one is refused, what was
done before it stays done (`Kernel.liquidate_refused`).
-/

namespace MarketReplay

variable {κ : Type} {now : Instant}

/-! ### Requests accepted in turn -/

namespace Order

/-- What the order was asked for by. -/
def request (o : Order) : OrderRequest := ⟨o.symbol, o.quantity, o.orderType, o.tag⟩

end Order

namespace OrderBook

/-- The orders of requests, numbered from `id` on. -/
def acceptedFrom (now : Instant) : (id : Nat) → List OrderRequest → List Order
  | _, [] => []
  | id, request :: rest =>
    ⟨id, request.symbol, request.quantity, request.orderType, now, .submitted, none, none,
      request.tag⟩ :: acceptedFrom now (id + 1) rest

/-- The orders of requests ask for what these do. -/
theorem map_request_acceptedFrom (now : Instant) (id : Nat) (requests : List OrderRequest) :
    (acceptedFrom now id requests).map Order.request = requests := by
  induction requests generalizing id with
  | nil => rfl
  | cons request rest ih => exact congrArg (request :: ·) (ih (id + 1))

/-- The orders of requests are open. -/
theorem filter_isOpen_acceptedFrom (now : Instant) (id : Nat) (requests : List OrderRequest) :
    (acceptedFrom now id requests).filter Order.isOpen = acceptedFrom now id requests := by
  induction requests generalizing id with
  | nil => rfl
  | cons request rest ih => exact congrArg (_ :: ·) (ih (id + 1))

/-- The orders of requests on a symbol ask for what these do. -/
theorem filter_acceptedFrom (now : Instant) (id : Nat) (requests : List OrderRequest)
    (chosen : Symbol → Bool) :
    ((acceptedFrom now id requests).filter fun o => chosen o.symbol).map Order.request =
      requests.filter fun r => chosen r.symbol := by
  conv_rhs => rw [← map_request_acceptedFrom now id requests]
  rw [List.filter_map]
  rfl

/-- Whether a request is refused depends on a book by its policy alone. -/
theorem check_eq_error_iff {b b' : OrderBook} (hpolicy : b'.policy = b.policy)
    {request : OrderRequest} {tracked : Universe} {cash : Int} {e : OrderError} :
    b'.check request tracked cash now = .error e ↔ b.check request tracked cash now = .error e := by
  unfold check
  rw [hpolicy]
  cases tracked.get? request.symbol with
  | none => rfl
  | some security =>
      by_cases hzero : request.quantity = 0
      · simp [hzero]
      by_cases hsale : request.quantity < 0
      · simp [hzero, hsale]
      by_cases hpaid : estimatedCost request security ≤ cash
      · simp [hzero, hsale, hpaid]
      · cases b.policy <;> simp [hzero, hsale, hpaid]

/-- The only events of an open order are submissions. -/
theorem Consistent.status_of_open {b : OrderBook} {past : List OrderEvent}
    (h : b.Consistent past) {o : Order} (ho : o ∈ b.orders) (hopen : o.status = .submitted)
    {e : OrderEvent} (he : e ∈ b.log past) (hid : e.orderId = o.id) : e.status = .submitted := by
  have hmem : e ∈ (b.log past).filter fun e => e.orderId = o.id :=
    List.mem_filter.2 ⟨he, decide_eq_true hid⟩
  have hlogged := h.logged o ho
  generalize (b.log past).filter (fun e => e.orderId = o.id) = events at hmem hlogged
  cases hlogged with
  | opened =>
      rw [List.mem_singleton.1 hmem]
      rfl
  | closed _ _ _ hclosed => exact absurd hopen hclosed

end OrderBook

/-! ### Closing positions -/

/-- The market order that closes a position. -/
def closing (position : Symbol × Int) : OrderRequest :=
  ⟨position.1, wrap64 (-position.2), .market, none⟩

/-- A position that can be negated is closed by its negative. -/
theorem closing_eq {symbol : Symbol} {quantity : Int} (hlo : minInt64 < quantity)
    (hhi : quantity ≤ maxInt64) :
    closing (symbol, quantity) = ⟨symbol, -quantity, .market, none⟩ := by
  have hwrap : wrap64 (-quantity) = -quantity := by
    unfold minInt64 maxInt64 at *
    exact wrap64_eq_self (by unfold minInt64; omega) (by unfold maxInt64; omega)
  rw [closing, hwrap]

/-- The market orders that close the positions of a list. -/
def closingAll (positions : List (Symbol × Int)) : List OrderRequest :=
  (positions.filter fun position => position.2 ≠ 0).map closing

/-- Whether a symbol is a target: the given one, or any if none is given. -/
def inTarget (target : Option Symbol) (symbol : Symbol) : Bool := target.all (· = symbol)

namespace Kernel

/-- Why a request is refused, if it is. -/
def refusal? (k : Kernel κ) (now : Instant) (request : OrderRequest) : Option OrderError :=
  match k.book.check request k.tracked k.portfolio.cash now with
  | .error e => some e
  | .ok _ => none

/-- The market orders that close the positions of a target. -/
def closings (k : Kernel κ) (target : Option Symbol) : List OrderRequest :=
  closingAll (k.targets target)

/-- The orders of requests that are accepted next. -/
def placed (k : Kernel κ) (now : Instant) (requests : List OrderRequest) : List Order :=
  OrderBook.acceptedFrom now (k.book.orders.length + 1) requests

/-- The kernel after requests were accepted in turn, with the warnings that they left. -/
def placing (k : Kernel κ) (now : Instant) (requests : List OrderRequest)
    (warnings : List String) : Kernel κ :=
  { k with
    book := ({ k.book with orders := k.book.orders ++ k.placed now requests, warnings } :
      OrderBook).queueAll (k.placed now requests) now }

/-- The orders of requests ask for what these do. -/
theorem map_request_placed (k : Kernel κ) (now : Instant) (requests : List OrderRequest) :
    (k.placed now requests).map Order.request = requests :=
  OrderBook.map_request_acceptedFrom now _ requests

variable {k : Kernel κ}

/-- A request is refused by the check of the book. -/
theorem refusal?_eq_some_iff {request : OrderRequest} {e : OrderError} :
    k.refusal? now request = some e ↔
      k.book.check request k.tracked k.portfolio.cash now = .error e := by
  unfold refusal?
  split
  · rename_i hcheck
    rw [hcheck, Option.some.injEq, Except.error.injEq]
  · rename_i hcheck
    rw [hcheck]
    simp

/-- A request that is refused leaves a kernel alone. -/
theorem submit_of_refusal {request : OrderRequest} {e : OrderError}
    (h : k.refusal? now request = some e) : k.submit now request = (.error e, k) := by
  simp only [submit, OrderBook.submit, refusal?_eq_some_iff.1 h]

/-- A request that is not refused is accepted. -/
theorem submit_of_not_refusal {request : OrderRequest} (h : k.refusal? now request = none) :
    ∃ warnings, k.submit now request =
      (.ok (k.book.accepted request now), k.placing now [request] warnings) := by
  unfold refusal? at h
  split at h
  · cases h
  · rename_i warnings hcheck
    refine ⟨warnings, ?_⟩
    simp only [submit, OrderBook.submit, hcheck]
    rfl

/-- Whether a request is refused does not depend on the requests accepted before it. -/
theorem refusal?_placing (accepted : List OrderRequest) (warnings : List String)
    (request : OrderRequest) :
    (k.placing now accepted warnings).refusal? now request = k.refusal? now request := by
  have hpolicy : (k.placing now accepted warnings).book.policy = k.book.policy := rfl
  refine Option.ext fun e => ?_
  rw [refusal?_eq_some_iff, refusal?_eq_some_iff]
  exact OrderBook.check_eq_error_iff hpolicy

/-- An accepted request takes the next number. -/
theorem placed_placing (request : OrderRequest) (warnings : List String)
    (rest : List OrderRequest) :
    (k.placing now [request] warnings).placed now rest =
      OrderBook.acceptedFrom now (k.book.orders.length + 1 + 1) rest := by
  have hlength : (k.placing now [request] warnings).book.orders.length =
      k.book.orders.length + 1 := List.length_append
  rw [placed, hlength]

/-- Requests accepted one after the other. -/
theorem placing_placing (request : OrderRequest) (rest : List OrderRequest)
    (warnings later : List String) :
    (k.placing now [request] warnings).placing now rest later =
      k.placing now (request :: rest) later := by
  simp [placing, placed, OrderBook.queueAll, OrderBook.acceptedFrom, OrderBook.eventsFrom,
    Nat.add_assoc, Nat.add_comm 1]

/-- Nothing is accepted of no requests. -/
theorem placing_nil : k.placing now [] k.book.warnings = k := by
  simp [placing, placed, OrderBook.queueAll, OrderBook.acceptedFrom, OrderBook.eventsFrom]

/-- Positions are closed in turn until a market order is refused: those before it are accepted, and
it answers the error. -/
theorem closeAll_cases (positions : List (Symbol × Int)) (k : Kernel κ) :
    (∃ warnings, (∀ r ∈ closingAll positions, k.refusal? now r = none) ∧
      closeAll now positions k =
        (.ok (k.placed now (closingAll positions)),
          k.placing now (closingAll positions) warnings)) ∨
    ∃ front r back e warnings, closingAll positions = front ++ r :: back ∧
      (∀ q ∈ front, k.refusal? now q = none) ∧ k.refusal? now r = some e ∧
      (front = [] → warnings = k.book.warnings) ∧
      closeAll now positions k = (.error e, k.placing now front warnings) := by
  induction positions generalizing k with
  | nil =>
      refine .inl ⟨k.book.warnings, by simp [closingAll], ?_⟩
      have hnil : closingAll [] = [] := rfl
      rw [closeAll, hnil, placing_nil]
      rfl
  | cons position rest ih =>
      obtain ⟨symbol, quantity⟩ := position
      by_cases hflat : quantity = 0
      · have hskip : closingAll ((symbol, quantity) :: rest) = closingAll rest := by
          simp [closingAll, hflat]
        rw [closeAll, if_pos hflat, hskip]
        exact ih k
      · have hcons : closingAll ((symbol, quantity) :: rest) =
            closing (symbol, quantity) :: closingAll rest := by
          simp [closingAll, hflat]
        have hfirst : k.submit now ⟨symbol, wrap64 (-quantity), .market, none⟩ =
            k.submit now (closing (symbol, quantity)) := rfl
        rw [closeAll, if_neg hflat, hcons, hfirst]
        cases hrefusal : k.refusal? now (closing (symbol, quantity)) with
        | some e =>
            refine .inr ⟨[], closing (symbol, quantity), _, e, k.book.warnings, rfl, by simp,
              hrefusal, fun _ => rfl, ?_⟩
            rw [submit_of_refusal hrefusal, placing_nil]
        | none =>
            obtain ⟨warnings, hsubmit⟩ := submit_of_not_refusal hrefusal
            rw [hsubmit]
            rcases ih (k.placing now [closing (symbol, quantity)] warnings) with
              ⟨later, haccepted, hrest⟩ | ⟨front, r, back, e, later, hsplit, haccepted, hr, -, hrest⟩
            · simp only [refusal?_placing] at haccepted
              refine .inl ⟨later, List.forall_mem_cons.2 ⟨hrefusal, haccepted⟩, ?_⟩
              simp only [hrest, placing_placing]
              rw [placed_placing]
              rfl
            · simp only [refusal?_placing] at haccepted hr
              refine .inr ⟨closing (symbol, quantity) :: front, r, back, e, later, ?_,
                List.forall_mem_cons.2 ⟨hrefusal, haccepted⟩, hr,
                fun hnil => absurd hnil (List.cons_ne_nil _ _), ?_⟩
              · rw [hsplit, List.cons_append]
              · simp only [hrest, placing_placing]
                rfl

/-! ### Orders and positions of a target -/

/-- The open orders on a target, as a liquidation leaves them. -/
def canceled (k : Kernel κ) (target : Option Symbol) : List Order :=
  (k.book.openOrders.filter fun o => inTarget target o.symbol).map
    fun o => { o with status := .canceled }

/-- The kernel with the open orders on a target canceled. -/
def withdrawing (k : Kernel κ) (now : Instant) (target : Option Symbol) : Kernel κ :=
  { k with
    book := ({ k.book with orders := k.book.orders.map (Order.withdrawnOn (inTarget target)) } :
      OrderBook).queueAll (k.canceled target) now }

/-- A cancellation takes no number. -/
theorem placed_withdrawing (target : Option Symbol) (requests : List OrderRequest) :
    (k.withdrawing now target).placed now requests = k.placed now requests := by
  have hlength : (k.withdrawing now target).book.orders.length = k.book.orders.length :=
    List.length_map _
  rw [placed, hlength, placed]

/-- A liquidation cancels the open orders on its target and closes the positions there. -/
theorem liquidate_eq (hnodup : (k.book.orders.map Order.id).Nodup) (target : Option Symbol) :
    k.liquidate now target = closeAll now (k.targets target) (k.withdrawing now target) := by
  have hcanceled : (OrderBook.cancelAll now (k.openIds target) k.book).2 =
      (k.withdrawing now target).book := OrderBook.cancelAll_chosen hnodup now (inTarget target)
  unfold liquidate
  rw [hcanceled]
  rfl

/-- Where no order is open on a target, nothing is canceled. -/
theorem withdrawing_of_canceled {target : Option Symbol} (hnone : k.canceled target = []) :
    k.withdrawing now target = k := by
  have hclosed : ∀ o ∈ k.book.orders, ¬ (inTarget target o.symbol ∧ o.status = .submitted) := by
    intro o ho hboth
    have hfilter := List.filter_eq_nil_iff.1 (List.map_eq_nil_iff.1 hnone) o
      (List.mem_filter.2 ⟨ho, Order.isOpen_iff.2 hboth.2⟩)
    exact hfilter hboth.1
  have horders : k.book.orders.map (Order.withdrawnOn (inTarget target)) = k.book.orders :=
    (List.map_congr_left fun o ho => if_neg (hclosed o ho)).trans (List.map_id _)
  rw [withdrawing, horders, hnone]
  simp [OrderBook.queueAll, OrderBook.eventsFrom]

/-- Cancellations change nothing about what is refused. -/
theorem refusal?_withdrawing (target : Option Symbol) (request : OrderRequest) :
    (k.withdrawing now target).refusal? now request = k.refusal? now request := by
  have hpolicy : (k.withdrawing now target).book.policy = k.book.policy := rfl
  refine Option.ext fun e => ?_
  rw [refusal?_eq_some_iff, refusal?_eq_some_iff]
  exact OrderBook.check_eq_error_iff hpolicy

/-- A liquidation cancels the open orders on its target. Then it closes the positions there: all of
them, or those before the first one whose market order is refused. -/
theorem liquidate_cases (hnodup : (k.book.orders.map Order.id).Nodup) (now : Instant)
    (target : Option Symbol) :
    (∃ warnings, (∀ r ∈ k.closings target, k.refusal? now r = none) ∧
      k.liquidate now target =
        (.ok (k.placed now (k.closings target)),
          (k.withdrawing now target).placing now (k.closings target) warnings)) ∨
    ∃ front r back e warnings, k.closings target = front ++ r :: back ∧
      (∀ q ∈ front, k.refusal? now q = none) ∧ k.refusal? now r = some e ∧
      (front = [] → warnings = k.book.warnings) ∧
      k.liquidate now target = (.error e, (k.withdrawing now target).placing now front warnings) := by
  have hcases := @closeAll_cases κ now (k.targets target) (k.withdrawing now target)
  rw [liquidate_eq hnodup]
  simp only [refusal?_withdrawing, placed_withdrawing] at hcases
  exact hcases

/-- A closing order is on the target. -/
theorem inTarget_of_mem_closings {target : Option Symbol} {r : OrderRequest}
    (hr : r ∈ k.closings target) : inTarget target r.symbol := by
  obtain ⟨position, hposition, rfl⟩ := List.mem_map.1 hr
  obtain ⟨e, he, rfl⟩ := List.mem_map.1 (List.mem_filter.1 hposition).1
  exact (List.mem_filter.1 he).2

/-- A symbol has one closing order if it is held on the target, of the quantity held, and none
otherwise. -/
theorem filter_closings (target : Option Symbol) (s : Symbol) :
    ((k.closings target).filter fun r => r.symbol = s) =
      if inTarget target s ∧ k.portfolio.quantity s ≠ 0
      then [closing (s, k.portfolio.quantity s)] else [] := by
  have hentries : ((k.closings target).filter fun r => r.symbol = s) =
      (((k.portfolio.holdings.entries.filter fun e => e.1 = s).filter
        fun e => e.2.quantity ≠ 0 && inTarget target e.1).map
          fun e => closing (e.1, e.2.quantity)) := by
    unfold closings closingAll targets
    simp only [List.filter_map, List.filter_filter, List.map_map]
    exact congrArg (List.map _) (List.filter_congr fun _ _ => Bool.and_comm _ _)
  rw [hentries, SortedMap.filter_entries, Portfolio.quantity]
  cases k.portfolio.holdings.get? s with
  | none => simp
  | some held =>
      by_cases hflat : held.quantity = 0
      · simp [hflat]
      · by_cases htarget : inTarget target s <;> simp [hflat, htarget]

/-- A new order of a liquidation is on its target. -/
theorem inTarget_of_mem_placed {target : Option Symbol} {o : Order}
    (ho : o ∈ k.placed now (k.closings target)) : inTarget target o.symbol := by
  have hrequest : o.request ∈ k.closings target := by
    rw [← k.map_request_placed now (k.closings target)]
    exact List.mem_map_of_mem ho
  exact inTarget_of_mem_closings hrequest

/-- Where positions can be negated, a symbol has one new order if it is held on the target, of minus
the quantity held, and none otherwise. -/
theorem filter_placed {s : Symbol} (hlo : minInt64 < k.portfolio.quantity s)
    (hhi : k.portfolio.quantity s ≤ maxInt64) (now : Instant) (target : Option Symbol) :
    ((k.placed now (k.closings target)).filter fun o => o.symbol = s).map Order.request =
      if inTarget target s ∧ k.portfolio.quantity s ≠ 0
      then [⟨s, -k.portfolio.quantity s, .market, none⟩] else [] := by
  rw [← closing_eq hlo hhi, ← filter_closings]
  exact OrderBook.filter_acceptedFrom now _ (k.closings target) (· = s)

/-- After a liquidation the orders are those from before, the open ones on the target canceled, and
the new ones. -/
theorem orders_liquidated (target : Option Symbol) (requests : List OrderRequest)
    (warnings : List String) :
    ((k.withdrawing now target).placing now requests warnings).book.orders =
      k.book.orders.map (Order.withdrawnOn (inTarget target)) ++
        k.placed now requests := by
  rw [← placed_withdrawing target]
  rfl

/-- After a liquidation the open orders are those on other symbols and the new ones. -/
theorem openOrders_liquidated (target : Option Symbol) (requests : List OrderRequest)
    (warnings : List String) :
    ((k.withdrawing now target).placing now requests warnings).book.openOrders =
      (k.book.openOrders.filter fun o => !inTarget target o.symbol) ++
        k.placed now requests := by
  rw [OrderBook.openOrders, orders_liquidated, List.filter_append,
    Order.filter_isOpen_withdrawnOn, placed, OrderBook.filter_isOpen_acceptedFrom]
  rfl

/-- After a liquidation the open orders on a target symbol are the new ones. -/
theorem netQuantity_liquidated (k : Kernel κ) (now : Instant) {target : Option Symbol} {s : Symbol}
    (hs : inTarget target s) (requests : List OrderRequest) (warnings : List String) :
    netQuantity ((k.withdrawing now target).placing now requests warnings).book.openOrders s =
      ((requests.filter fun r => r.symbol = s).map OrderRequest.quantity).sum := by
  have hothers : ((k.book.openOrders.filter fun o => !inTarget target o.symbol).filter
      fun o => o.symbol = s) = [] := by
    rw [List.filter_filter]
    refine List.filter_eq_nil_iff.2 fun o _ hboth => ?_
    obtain ⟨rfl, hnot⟩ : o.symbol = s ∧ inTarget target o.symbol = false := by simpa using hboth
    rw [hnot] at hs
    cases hs
  have hplaced : (((k.placed now requests).filter fun o => o.symbol = s).map Order.request) =
      requests.filter fun r => r.symbol = s :=
    OrderBook.filter_acceptedFrom now _ requests (· = s)
  rw [netQuantity, openOrders_liquidated, List.filter_append, hothers, List.nil_append, ← hplaced,
    List.map_map]
  rfl

/-- After a liquidation the events of the canceled orders and those of the new ones are queued. -/
theorem pending_liquidated (target : Option Symbol) (requests : List OrderRequest)
    (warnings : List String) :
    ((k.withdrawing now target).placing now requests warnings).book.pending =
      k.book.pending ++ OrderBook.eventsFrom now k.book.nextSeq (k.canceled target ++
        k.placed now requests) := by
  rw [OrderBook.eventsFrom_append, ← List.append_assoc, ← placed_withdrawing target]
  rfl

/-- The orders that a liquidation cancels and places have numbers of their own. -/
theorem nodup_liquidated {target : Option Symbol} {requests : List OrderRequest}
    {warnings : List String} (hnodup : (((k.withdrawing now target).placing now requests
      warnings).book.orders.map Order.id).Nodup) :
    ((k.canceled target ++ k.placed now requests).map
      Order.id).Nodup := by
  have hids : ∀ orders : List Order,
      (orders.map fun o => ({ o with status := .canceled } : Order)).map Order.id =
        orders.map Order.id := fun orders => List.map_map
  have hkept : (k.book.orders.map (Order.withdrawnOn (inTarget target))).map Order.id =
      k.book.orders.map Order.id := by
    rw [List.map_map]
    exact List.map_congr_left fun o _ => o.id_withdrawnOn _
  rw [orders_liquidated, List.map_append, hkept] at hnodup
  rw [List.map_append, canceled, hids]
  refine List.Sublist.nodup (List.Sublist.append_right ?_ _) hnodup
  exact (List.filter_sublist.trans List.filter_sublist).map Order.id

/-- A canceled order is found as such, with one event of its cancellation in the queue. -/
theorem canceled_liquidated {past : List OrderEvent} (hk : k.book.Consistent past)
    {target : Option Symbol} {requests : List OrderRequest} {warnings : List String}
    (hk' : ((k.withdrawing now target).placing now requests warnings).book.Consistent past)
    {o : Order} (ho : o ∈ k.book.openOrders) (htarget : inTarget target o.symbol) :
    let book := ((k.withdrawing now target).placing now requests warnings).book
    book.get? o.id = some { o with status := .canceled } ∧
      ∃ seq, (book.pending.filter fun e => e.orderId = o.id ∧ e.status = .canceled) =
        [({ o with status := .canceled } : Order).event now seq] := by
  intro book
  obtain ⟨hmem, hisOpen⟩ := List.mem_filter.1 ho
  have hopen := Order.isOpen_iff.1 hisOpen
  constructor
  · refine (OrderBook.get?_eq_some_iff hk'.ids_nodup).2 ⟨List.mem_append_left _ ?_, rfl⟩
    exact List.mem_map.2 ⟨o, hmem, if_pos ⟨htarget, hopen⟩⟩
  · have hcanceled : ({ o with status := .canceled } : Order) ∈ k.canceled target ++
        k.placed now requests :=
      List.mem_append_left _ (List.mem_map.2 ⟨o, List.mem_filter.2 ⟨ho, htarget⟩, rfl⟩)
    obtain ⟨seq, hseq⟩ := OrderBook.filter_eventsFrom (nodup_liquidated hk'.ids_nodup) hcanceled
      now k.book.nextSeq
    refine ⟨seq, ?_⟩
    -- Before the liquidation the order was open, so the queue had no cancellation of it.
    have hbefore : (k.book.pending.filter fun e => e.orderId = o.id ∧ e.status = .canceled) =
        [] := by
      refine List.filter_eq_nil_iff.2 fun e he hboth => ?_
      obtain ⟨hid, hstatus⟩ := of_decide_eq_true hboth
      rw [hk.status_of_open hmem hopen (List.mem_append_right _ he) hid] at hstatus
      cases hstatus
    have hpending : book.pending = _ := pending_liquidated target requests warnings
    rw [hpending, List.filter_append, hbefore, List.nil_append]
    simp only [Bool.decide_and, Bool.and_comm (decide (_ = o.id))]
    rw [← List.filter_filter, hseq]
    rfl

/-- Once the closing orders of a target are filled, in any order and at any prices, no position of
it is left, and the others are as they were. A record of a flat position is none. -/
theorem get?_of_filled {target : Option Symbol} {fills : List Order}
    (hquantity : ∀ s, minInt64 < k.portfolio.quantity s ∧ k.portfolio.quantity s ≤ maxInt64)
    (hfills : (fills.map Order.request).Perm (k.closings target))
    (hprice : ∀ o ∈ fills, o.fillPrice.isSome) (s : Symbol) :
    (fills.foldl Portfolio.book k.portfolio).holdings.get? s =
      (k.portfolio.holdings.get? s).filter fun held => !inTarget target s || held.isFlat := by
  have hon : ((fills.filter fun o => o.symbol = s).map Order.request).Perm
      ((k.closings target).filter fun r => r.symbol = s) := by
    have hfiltered := hfills.filter fun r => r.symbol = s
    rwa [List.filter_map] at hfiltered
  rw [filter_closings] at hon
  split at hon
  · rename_i hheld
    obtain ⟨htarget, hopen⟩ := hheld
    obtain ⟨o, ho, hrequest⟩ := List.map_eq_singleton_iff.1 (List.perm_singleton.1 hon)
    obtain ⟨front, back, rfl, hfront, hsymbol, hback⟩ := List.filter_eq_cons_iff.1 ho
    obtain rfl : o.symbol = s := of_decide_eq_true hsymbol
    have hfront : ∀ x ∈ front, x.symbol ≠ o.symbol := fun x hx => by simpa using hfront x hx
    have hback : ∀ x ∈ back, x.symbol ≠ o.symbol := by
      simpa using List.filter_eq_nil_iff.1 hback
    obtain ⟨hlo, hhi⟩ := hquantity o.symbol
    have hclosing : o.quantity = -k.portfolio.quantity o.symbol := by
      rw [closing_eq hlo hhi] at hrequest
      exact congrArg OrderRequest.quantity hrequest
    rw [Portfolio.get?_foldl_book_closing hfront hback (hprice o List.mem_append_cons_self) hlo hhi
      hclosing]
    cases hheld : k.portfolio.holdings.get? o.symbol with
    | none => rfl
    | some record =>
        have hrecord : ¬ record.quantity = 0 := by
          simpa [Portfolio.quantity, hheld] using hopen
        simp [Option.filter, htarget, Holding.isFlat, hrecord]
  · rename_i hnot
    have hnil := List.map_eq_nil_iff.1 (List.perm_nil.1 hon)
    have hne : ∀ x ∈ fills, x.symbol ≠ s := by
      simpa using List.filter_eq_nil_iff.1 hnil
    rw [Portfolio.get?_foldl_book_of_ne hne]
    cases hheld : k.portfolio.holdings.get? s with
    | none => rfl
    | some record =>
        have hkept : (!inTarget target s || record.isFlat) = true := by
          by_cases htarget : inTarget target s
          · have hflat : record.quantity = 0 := by
              simpa [htarget, Portfolio.quantity, hheld] using hnot
            simp [Holding.isFlat, hflat]
          · simp [htarget]
        simp [Option.filter, hkept]

/-! ### A hedged position -/

/-- The moment at which the hedged position is held. -/
def hedgedAt : Instant := .startOf ⟨735388, by decide, by decide⟩ .daily

/-- Records of two securities with last prices of 100 and 60. -/
def hedgedRecords : Universe :=
  { Universe.start .withContract .everyStep with
    securities := .ofList [(.equity "SPY", { Security.fresh with price := some 100000000 }),
      (.equity "TWX", { Security.fresh with price := some 60000000 })] }

/-- Two orders on the first security and one on the second. -/
def hedgedOrders : List OrderBook.Action :=
  [⟨.equity "SPY", -3, .market, none⟩, ⟨.equity "SPY", 1, .marketOnOpen, none⟩,
    ⟨.equity "TWX", 1, .market, none⟩].map fun request =>
      .submit request hedgedRecords 100000000 hedgedAt

/-- A kernel with 100 of cash that holds 10 units of the first security and is short of 4 units of
the second. -/
def hedged : Kernel Empty where
  calendar := .alwaysOn
  tracked := hedgedRecords
  book := ((OrderBook.History.start .alwaysOn .enforce).run hedgedOrders).book
  portfolio := { Portfolio.ofCash 100000000 with
    holdings := .ofList [(.equity "SPY", ⟨10, 90000000⟩), (.equity "TWX", ⟨-4, 50000000⟩)] }
  contracts := fun _ _ => []
  pending := []

/-- The quantities of the hedged position can be negated. -/
theorem quantity_hedged (s : Symbol) :
    minInt64 < hedged.portfolio.quantity s ∧ hedged.portfolio.quantity s ≤ maxInt64 := by
  have hget : hedged.portfolio.holdings.get? s =
      if s = .equity "TWX" then some ⟨-4, 50000000⟩
      else if s = .equity "SPY" then some ⟨10, 90000000⟩ else none := by
    show (SortedMap.ofList _).get? s = _
    unfold SortedMap.ofList SortedMap.insertAll
    simp only [List.foldl_cons, List.foldl_nil, SortedMap.get?_insert, SortedMap.get?_empty]
  rw [Portfolio.quantity, hget]
  split
  · decide
  · split <;> decide

/-- A liquidation that is not refused, for every book that actions made and every position that can
be negated.

The open orders on the target are then those that it answers: one market order of minus the quantity
held for each symbol held there, and none for the others, so that on every target symbol position
and open orders come to zero. Every order that was open there is canceled, with one event of that in
the queue; the events of the new orders follow. Orders on other symbols, portfolio and universe are
as they were. Once the new orders are filled, in any order and at any prices, no position of the
target is left, and the others are as they were; a record of a flat position is none. -/
theorem liquidate_flattens {k' : Kernel κ} {target : Option Symbol} {out : List Order}
    {calendar : Calendar} {policy : BuyingPowerPolicy} {actions : List OrderBook.Action}
    (hbook : k.book = ((OrderBook.History.start calendar policy).run actions).book)
    (hquantity : ∀ s, minInt64 < k.portfolio.quantity s ∧ k.portfolio.quantity s ≤ maxInt64)
    (h : k.liquidate now target = (.ok out, k')) :
    (k'.book.openOrders.filter fun o => inTarget target o.symbol) = out ∧
    (∀ s, (out.filter fun o => o.symbol = s).map Order.request =
      if inTarget target s ∧ k.portfolio.quantity s ≠ 0
      then [⟨s, -k.portfolio.quantity s, .market, none⟩] else []) ∧
    (∀ s, inTarget target s →
      k'.portfolio.quantity s + netQuantity k'.book.openOrders s = 0) ∧
    (∀ o ∈ k.book.openOrders, inTarget target o.symbol →
      k'.book.get? o.id = some { o with status := .canceled } ∧
      ∃ seq, (k'.book.pending.filter fun e => e.orderId = o.id ∧ e.status = .canceled) =
        [({ o with status := .canceled } : Order).event now seq]) ∧
    k'.book.pending = k.book.pending ++
      OrderBook.eventsFrom now k.book.nextSeq (k.canceled target ++ out) ∧
    (k'.book.orders.filter fun o => !inTarget target o.symbol) =
      (k.book.orders.filter fun o => !inTarget target o.symbol) ∧
    k' = { k with book := k'.book } ∧
    ∀ fills : List Order, (fills.map Order.terms).Perm (out.map Order.terms) →
      (∀ o ∈ fills, o.fillPrice.isSome) → ∀ s,
      (fills.foldl Portfolio.book k'.portfolio).holdings.get? s =
        (k.portfolio.holdings.get? s).filter fun held => !inTarget target s || held.isFlat := by
  obtain ⟨hsound, -⟩ := (OrderBook.History.sound_start calendar policy).run actions
  have hk : k.book.Consistent _ := hbook ▸ hsound.consistent
  have hconsistent := (liquidate_commanded hk now target).consistent hk
  rcases liquidate_cases hk.ids_nodup now target with
    ⟨warnings, -, hok⟩ | ⟨front, r, back, e, warnings, -, -, -, -, herror⟩
  swap
  · rw [h] at herror
    cases herror
  rw [hok] at h hconsistent
  obtain ⟨hout, rfl⟩ := Prod.mk.inj h
  obtain rfl := Except.ok.inj hout
  refine ⟨?_, fun s => filter_placed (hquantity s).1 (hquantity s).2 now target, fun s hs => ?_,
    fun o ho => canceled_liquidated hk hconsistent ho, pending_liquidated target _ warnings, ?_, rfl,
    ?_⟩
  · rw [openOrders_liquidated, List.filter_append, List.filter_filter,
      List.filter_eq_self.2 fun o => inTarget_of_mem_placed]
    simp
  · have hnet := netQuantity_liquidated k now hs (k.closings target) warnings
    rw [filter_closings, closing_eq (hquantity s).1 (hquantity s).2] at hnet
    rw [hnet]
    show k.portfolio.quantity s + _ = 0
    by_cases hflat : k.portfolio.quantity s = 0
    · simp [hflat]
    · rw [if_pos ⟨hs, hflat⟩]
      simp
  · rw [orders_liquidated, List.filter_append, Order.filter_withdrawnOn]
    refine (congrArg (_ ++ ·) (List.filter_eq_nil_iff.2 fun o ho => ?_)).trans (List.append_nil _)
    simp [inTarget_of_mem_placed ho]
  · intro fills hterms hprice s
    refine get?_of_filled hquantity ?_ hprice s
    have hrequests := hterms.map fun t =>
      (⟨t.2.1, t.2.2.1, t.2.2.2.1, t.2.2.2.2.2⟩ : OrderRequest)
    rw [List.map_map, List.map_map] at hrequests
    exact hrequests.trans (.of_eq (k.map_request_placed now (k.closings target)))

/-- The long side of the hedged position is closed by one sale, which cancels the two orders on it;
once it is filled the security is not held any more. The short side stays. -/
theorem hedged_long_closed :
    let spy := Symbol.equity "SPY"
    let k' := (hedged.liquidate hedgedAt (some spy)).2
    let order : Order := ⟨4, spy, -10, .market, hedgedAt, .submitted, none, none, none⟩
    (hedged.liquidate hedgedAt (some spy)).1 = .ok [order] ∧
      (k'.book.openOrders.filter fun o => inTarget (some spy) o.symbol) = [order] ∧
      k'.portfolio.quantity spy + netQuantity k'.book.openOrders spy = 0 ∧
      (∀ o ∈ hedged.book.openOrders, o.symbol = spy →
        k'.book.get? o.id = some { o with status := .canceled }) ∧
      (k'.portfolio.book { order with status := .filled, fillPrice := some 95000000 }).holdings.get?
        spy = none := by
  intro spy k' order
  have hok : (hedged.liquidate hedgedAt (some spy)).1 = .ok [order] := rfl
  have hbook : hedged.book =
      ((OrderBook.History.start .alwaysOn .enforce).run hedgedOrders).book := rfl
  have hliquidate : hedged.liquidate hedgedAt (some spy) = (.ok [order], k') := Prod.ext hok rfl
  obtain ⟨hopen, -, hnet, hcanceled, -, -, -, hfilled⟩ :=
    liquidate_flattens hbook quantity_hedged hliquidate
  refine ⟨hok, hopen, hnet spy rfl, fun o ho hspy => ?_, ?_⟩
  · exact (hcanceled o ho (decide_eq_true hspy.symm)).1
  · have hgone := hfilled [{ order with status := .filled, fillPrice := some 95000000 }] (.refl _)
      (by simp) spy
    rw [List.foldl_cons, List.foldl_nil] at hgone
    rw [hgone]
    decide

/-- A liquidation that is refused, for every book that actions made.

The refusal is that of the first closing order that the book refuses. The open orders on the target
are canceled by then, the closing orders before it are accepted, and their events are queued; so the
kernel is as it was exactly if no order was open on the target and the refused one is the first.
Portfolio, universe and the rest of the kernel are as they were in any case. -/
theorem liquidate_refused {k' : Kernel κ} {target : Option Symbol} {e : OrderError}
    {calendar : Calendar} {policy : BuyingPowerPolicy} {actions : List OrderBook.Action}
    (hbook : k.book = ((OrderBook.History.start calendar policy).run actions).book)
    (h : k.liquidate now target = (.error e, k')) :
    ∃ front r back, k.closings target = front ++ r :: back ∧
      (∀ q ∈ front, k.refusal? now q = none) ∧ k.refusal? now r = some e ∧
      k'.book.orders = k.book.orders.map (Order.withdrawnOn (inTarget target)) ++
        k.placed now front ∧
      k'.book.pending = k.book.pending ++
        OrderBook.eventsFrom now k.book.nextSeq (k.canceled target ++ k.placed now front) ∧
      k' = { k with book := k'.book } ∧
      (k' = k ↔ front = [] ∧ k.canceled target = []) := by
  obtain ⟨hsound, -⟩ := (OrderBook.History.sound_start calendar policy).run actions
  have hk : k.book.Consistent _ := hbook ▸ hsound.consistent
  rcases liquidate_cases hk.ids_nodup now target with
    ⟨warnings, -, hok⟩ | ⟨front, r, back, e', warnings, hsplit, haccepted, hr, hwarnings, herror⟩
  · rw [h] at hok
    cases hok
  rw [h] at herror
  obtain ⟨hrefusal, rfl⟩ := Prod.mk.inj herror
  obtain rfl := Except.error.inj hrefusal
  refine ⟨front, r, back, hsplit, haccepted, hr, orders_liquidated target front warnings,
    pending_liquidated target front warnings, rfl, ?_⟩
  constructor
  · intro hsame
    -- Every cancellation and every order takes a sequence number.
    have hseq : k.book.nextSeq + (k.canceled target).length +
        ((k.withdrawing now target).placed now front).length = k.book.nextSeq :=
      congrArg (fun k : Kernel κ => k.book.nextSeq) hsame
    rw [placed_withdrawing] at hseq
    have hfront : k.placed now front = [] := List.length_eq_zero_iff.1 (by omega)
    refine ⟨?_, List.length_eq_zero_iff.1 (by omega)⟩
    rw [← k.map_request_placed now front, hfront, List.map_nil]
  · rintro ⟨rfl, hnone⟩
    rw [hwarnings rfl, withdrawing_of_canceled hnone, placing_nil]

/-- The hedged position cannot be closed as a whole: the cash does not cover the short side. The
orders on both sides are canceled nevertheless, and the sale of the long side is placed. -/
theorem hedged_half_closed :
    let k' := (hedged.liquidate hedgedAt none).2
    (hedged.liquidate hedgedAt none).1 = .error (.insufficientFunds 240000000 100000000) ∧
      (k'.book.orders.map fun o => (o.quantity, o.status)) =
        [(-3, .canceled), (1, .canceled), (1, .canceled), (-10, .submitted)] ∧
      k' ≠ hedged := by
  intro k'
  have herror : (hedged.liquidate hedgedAt none).1 =
      .error (.insufficientFunds 240000000 100000000) := rfl
  have hbook : hedged.book =
      ((OrderBook.History.start .alwaysOn .enforce).run hedgedOrders).book := rfl
  have hliquidate : hedged.liquidate hedgedAt none =
      (.error (.insufficientFunds 240000000 100000000), k') := Prod.ext herror rfl
  obtain ⟨front, r, back, -, -, -, -, -, -, hsame⟩ := liquidate_refused hbook hliquidate
  refine ⟨herror, by decide, fun heq => ?_⟩
  have hcanceled : hedged.canceled none ≠ [] := by decide
  exact hcanceled (hsame.1 heq).2

end Kernel

end MarketReplay
