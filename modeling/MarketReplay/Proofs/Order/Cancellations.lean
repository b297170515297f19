import MarketReplay.Proofs.Order.Log

/-!
# Orders after cancellations

Cancellations in turn close the open orders of the given numbers and leave every other order as it
is (`OrderBook.cancelAll_orders`). Given the open orders on some symbols, they close exactly these
and queue one event for each (`OrderBook.cancelAll_chosen`); canceling for a symbol is the case of
one (`OrderBook.mem_of_cancelOpenFor`, `OrderBook.filter_cancelOpenFor`).
-/

namespace MarketReplay

namespace Order

/-- The order, canceled if it is open and has one of some numbers. -/
def withdrawn (ids : List Nat) (o : Order) : Order :=
  if o.id ∈ ids ∧ o.status = .submitted then { o with status := .canceled } else o

/-- A cancellation keeps the number of an order. -/
theorem id_withdrawn (ids : List Nat) (o : Order) : (o.withdrawn ids).id = o.id := by
  unfold withdrawn
  split <;> rfl

/-- Cancellations keep the numbers of orders. -/
theorem map_id_withdrawn (ids : List Nat) (orders : List Order) :
    (orders.map (withdrawn ids)).map id = orders.map id := by
  rw [List.map_map]
  exact List.map_congr_left fun o _ => o.id_withdrawn ids

/-- Cancellations of one number and then of others are those of all these numbers. -/
theorem withdrawn_cons (id : Nat) (rest : List Nat) (o : Order) :
    (o.withdrawn [id]).withdrawn rest = o.withdrawn (id :: rest) := by
  by_cases hopen : o.status = .submitted
  · by_cases hid : o.id = id
    · simp [withdrawn, hopen, hid]
    · simp [withdrawn, hopen, hid]
  · simp [withdrawn, hopen]

/-- Cancellations leave an order of another number as it is. -/
theorem withdrawn_of_notMem {ids : List Nat} {o : Order} (h : o.id ∉ ids) : o.withdrawn ids = o :=
  if_neg fun hboth => h hboth.1

/-- What is open after cancellations was open before and is the same order. -/
theorem withdrawn_eq_of_open {ids : List Nat} {o : Order}
    (h : (o.withdrawn ids).status = .submitted) : o.withdrawn ids = o := by
  unfold withdrawn at h ⊢
  split at h
  · cases h
  · rename_i hkept
    exact if_neg hkept

/-- The order, canceled if it is open and on a chosen symbol. -/
def withdrawnOn (chosen : Symbol → Bool) (o : Order) : Order :=
  if chosen o.symbol ∧ o.status = .submitted then { o with status := .canceled } else o

/-- A cancellation keeps the symbol of an order. -/
theorem symbol_withdrawnOn (chosen : Symbol → Bool) (o : Order) :
    (o.withdrawnOn chosen).symbol = o.symbol := by
  unfold withdrawnOn
  split <;> rfl

/-- A cancellation keeps the number of an order. -/
theorem id_withdrawnOn (chosen : Symbol → Bool) (o : Order) :
    (o.withdrawnOn chosen).id = o.id := by
  unfold withdrawnOn
  split <;> rfl

/-- An order on another symbol is left as it is. -/
theorem withdrawnOn_of_not {chosen : Symbol → Bool} {o : Order} (h : ¬ chosen o.symbol) :
    o.withdrawnOn chosen = o :=
  if_neg fun hboth => h hboth.1

/-- What is open after canceling on chosen symbols was open before, on another symbol. -/
theorem isOpen_withdrawnOn {chosen : Symbol → Bool} {o : Order} :
    (o.withdrawnOn chosen).isOpen = (o.isOpen && !chosen o.symbol) := by
  by_cases hopen : o.status = .submitted <;> by_cases hchosen : chosen o.symbol <;>
    simp [withdrawnOn, isOpen, hopen, hchosen, OrderStatus.isTerminal]

/-- The orders on other symbols are left as they are. -/
theorem filter_withdrawnOn (chosen : Symbol → Bool) (orders : List Order) :
    ((orders.map (withdrawnOn chosen)).filter fun o => !chosen o.symbol) =
      orders.filter fun o => !chosen o.symbol := by
  rw [List.filter_map]
  simp only [Function.comp_def, symbol_withdrawnOn]
  refine (List.map_congr_left fun o ho => ?_).trans (List.map_id _)
  exact withdrawnOn_of_not (by simpa using (List.mem_filter.1 ho).2)

/-- What is open after canceling on chosen symbols is what was open on other symbols. -/
theorem filter_isOpen_withdrawnOn (chosen : Symbol → Bool) (orders : List Order) :
    (orders.map (withdrawnOn chosen)).filter isOpen =
      (orders.filter isOpen).filter fun o => !chosen o.symbol := by
  rw [List.filter_map, List.filter_filter]
  simp only [Function.comp_def, isOpen_withdrawnOn, Bool.and_comm]
  refine (List.map_congr_left fun o ho => ?_).trans (List.map_id _)
  exact withdrawnOn_of_not (by simpa using (Bool.and_eq_true_iff.1 (List.mem_filter.1 ho).2).1)

end Order

namespace OrderBook

variable {b b' : OrderBook} {id : Nat} {now : Instant}

/-! ### Events queued in turn -/

/-- The events of orders in turn, numbered from `seq` on. -/
def eventsFrom (now : Instant) : (seq : Nat) → List Order → List OrderEvent
  | _, [] => []
  | seq, o :: rest => o.event now seq :: eventsFrom now (seq + 1) rest

/-- The book with the events of orders queued in turn. -/
def queueAll (b : OrderBook) (orders : List Order) (now : Instant) : OrderBook :=
  { b with
    pending := b.pending ++ eventsFrom now b.nextSeq orders
    nextSeq := b.nextSeq + orders.length }

/-- The events of orders and of further ones. -/
theorem eventsFrom_append (now : Instant) (seq : Nat) (front back : List Order) :
    eventsFrom now seq (front ++ back) =
      eventsFrom now seq front ++ eventsFrom now (seq + front.length) back := by
  induction front generalizing seq with
  | nil => rfl
  | cons o rest ih =>
      rw [List.cons_append, eventsFrom, eventsFrom, ih, List.length_cons, List.cons_append,
        Nat.add_right_comm, Nat.add_assoc seq]

/-- Orders told apart by their numbers have one event each. -/
theorem filter_eventsFrom {orders : List Order} (hnodup : (orders.map Order.id).Nodup)
    {o : Order} (ho : o ∈ orders) (now : Instant) (seq : Nat) :
    ∃ n, ((eventsFrom now seq orders).filter fun e => e.orderId = o.id) = [o.event now n] := by
  have hnone : ∀ (rest : List Order) (n : Nat), o.id ∉ rest.map Order.id →
      ((eventsFrom now n rest).filter fun e => e.orderId = o.id) = [] := by
    intro rest
    induction rest with
    | nil => exact fun _ _ => rfl
    | cons other rest ih =>
        intro n hrest
        rw [List.map_cons, List.mem_cons, not_or] at hrest
        have hother : other.id ≠ o.id := fun heq => hrest.1 heq.symm
        rw [eventsFrom, List.filter_cons_of_neg (by simp [Order.event, hother]),
          ih _ hrest.2]
  induction orders generalizing seq with
  | nil => cases ho
  | cons first rest ih =>
      rw [List.map_cons, List.nodup_cons] at hnodup
      rw [eventsFrom]
      rcases List.mem_cons.1 ho with rfl | hrest
      · refine ⟨seq, ?_⟩
        rw [List.filter_cons_of_pos (by simp [Order.event]), hnone rest _ hnodup.1]
      · have hfirst : first.id ≠ o.id := fun heq => hnodup.1 (heq ▸ List.mem_map_of_mem hrest)
        obtain ⟨n, hn⟩ := ih hnodup.2 hrest (seq + 1)
        exact ⟨n, by rwa [List.filter_cons_of_neg (by simp [Order.event, hfirst])]⟩

/-! ### Cancellations -/

/-- A cancellation closes the order of its number. -/
theorem orders_of_cancel (hnodup : (b.orders.map Order.id).Nodup) {e : OrderEvent}
    (h : b.cancel id now = .ok (e, b')) : b'.orders = b.orders.map (Order.withdrawn [id]) := by
  obtain ⟨order, hget, hopen, -, rfl⟩ := cancel_eq_ok h
  have hmem := List.mem_of_find?_eq_some hget
  have hid : order.id = id := by simpa using List.find?_some hget
  refine List.map_congr_left fun o ho => ?_
  by_cases hsame : o.id = order.id
  · obtain rfl := List.inj_on_of_nodup_map hnodup ho hmem hsame
    simp [Order.withdrawn, hid, hopen]
  · rw [hid] at hsame
    simp [Order.withdrawn, hid, hsame]

/-- Where a cancellation is refused, no open order has its number. -/
theorem withdrawn_of_cancel (hnodup : (b.orders.map Order.id).Nodup) {refusal : OrderError}
    (h : b.cancel id now = .error refusal) : b.orders.map (Order.withdrawn [id]) = b.orders := by
  have hclosed : ∀ o ∈ b.orders, o.id = id → o.status ≠ .submitted := by
    intro o ho hid hopen
    unfold cancel at h
    cases hget : b.get? id with
    | none =>
        have hnot := List.find?_eq_none.1 hget o ho
        simp [hid] at hnot
    | some order =>
        have horder : order.id = id := by simpa using List.find?_some hget
        obtain rfl := List.inj_on_of_nodup_map hnodup ho (List.mem_of_find?_eq_some hget)
          (hid.trans horder.symm)
        simp [hget, Order.transition, hopen] at h
  refine (List.map_congr_left fun o ho => ?_).trans (List.map_id _)
  refine if_neg fun hboth => ?_
  exact hclosed o ho (List.mem_singleton.1 hboth.1) hboth.2

/-- Cancellations in turn close the open orders of their numbers. -/
theorem cancelAll_orders (now : Instant) (ids : List Nat)
    (hnodup : (b.orders.map Order.id).Nodup) :
    (cancelAll now ids b).2.orders = b.orders.map (Order.withdrawn ids) := by
  induction ids generalizing b with
  | nil => exact (List.map_id _).symm
  | cons id rest ih =>
      have hcomposed : (b.orders.map (Order.withdrawn [id])).map (Order.withdrawn rest) =
          b.orders.map (Order.withdrawn (id :: rest)) := by
        rw [List.map_map]
        exact List.map_congr_left fun o _ => o.withdrawn_cons id rest
      rw [cancelAll]
      split
      · rename_i hrefused
        rw [ih hnodup, ← hcomposed, withdrawn_of_cancel hnodup hrefused]
      · rename_i hcanceled
        have horders := orders_of_cancel hnodup hcanceled
        rw [ih (by rwa [horders, Order.map_id_withdrawn]), horders, hcomposed]

/-- Cancellations of open orders in turn close these and queue their events. -/
theorem cancelAll_open {orders : List Order} (hnodup : (b.orders.map Order.id).Nodup)
    (hopen : ∀ o ∈ orders, o ∈ b.orders ∧ o.status = .submitted)
    (hids : (orders.map Order.id).Nodup) :
    (cancelAll now (orders.map Order.id) b).2 =
      ({ b with orders := b.orders.map (Order.withdrawn (orders.map Order.id)) } :
        OrderBook).queueAll (orders.map fun o => { o with status := .canceled }) now := by
  induction orders generalizing b with
  | nil =>
      have hsame : b.orders.map (Order.withdrawn []) = b.orders := List.map_id _
      rw [List.map_nil, hsame]
      simp [cancelAll, queueAll, eventsFrom]
  | cons order rest ih =>
      obtain ⟨⟨horder, hsubmitted⟩, hrest⟩ := List.forall_mem_cons.1 hopen
      rw [List.map_cons, List.nodup_cons] at hids
      let canceled : Order := { order with status := .canceled }
      let b₁ : OrderBook := { b with orders := replace canceled b.orders }
      have hcancel : b.cancel order.id now =
          .ok (canceled.event now b.nextSeq, b₁.queue canceled now) := by
        have htransition : order.transition .canceled = .ok canceled := by
          simp [Order.transition, hsubmitted, canceled]
        rw [cancel, (get?_eq_some_iff hnodup).2 ⟨horder, rfl⟩]
        simp only [htransition]
        rfl
      have horders : (b₁.queue canceled now).orders = b.orders.map (Order.withdrawn [order.id]) :=
        orders_of_cancel hnodup hcancel
      have hnodup₁ : ((b₁.queue canceled now).orders.map Order.id).Nodup := by
        rwa [horders, Order.map_id_withdrawn]
      -- The rest have other numbers, so the first cancellation leaves them in the book as they are.
      have hkept : ∀ o ∈ rest,
          o ∈ (b₁.queue canceled now).orders ∧ o.status = .submitted := by
        intro o ho
        have hother : o.id ∉ [order.id] := by
          rw [List.mem_singleton]
          exact fun heq => hids.1 (heq ▸ List.mem_map_of_mem ho)
        refine ⟨?_, (hrest o ho).2⟩
        rw [horders, ← Order.withdrawn_of_notMem hother]
        exact List.mem_map_of_mem (hrest o ho).1
      have hcomposed : (b.orders.map (Order.withdrawn [order.id])).map
          (Order.withdrawn (rest.map Order.id)) =
          b.orders.map (Order.withdrawn (order.id :: rest.map Order.id)) := by
        rw [List.map_map]
        exact List.map_congr_left fun o _ => o.withdrawn_cons order.id _
      rw [List.map_cons, cancelAll, hcancel]
      simp only
      rw [ih hnodup₁ hkept hids.2, horders, hcomposed]
      simp only [queue, queueAll, eventsFrom, List.map_cons, List.length_cons, List.append_assoc,
        List.cons_append, List.nil_append, Nat.add_assoc, Nat.add_comm 1]
      rfl

/-- Canceling the open orders on chosen symbols closes exactly these and queues their events. -/
theorem cancelAll_chosen (hnodup : (b.orders.map Order.id).Nodup) (now : Instant)
    (chosen : Symbol → Bool) :
    (cancelAll now ((b.openOrders.filter fun o => chosen o.symbol).map Order.id) b).2 =
      ({ b with orders := b.orders.map (Order.withdrawnOn chosen) } : OrderBook).queueAll
        ((b.openOrders.filter fun o => chosen o.symbol).map
          fun o => { o with status := .canceled }) now := by
  have hmem : ∀ o ∈ b.openOrders.filter fun o => chosen o.symbol,
      o ∈ b.orders ∧ o.status = .submitted := by
    intro o ho
    obtain ⟨horders, hopen⟩ := List.mem_filter.1 (List.mem_filter.1 ho).1
    exact ⟨horders, Order.isOpen_iff.1 hopen⟩
  have hids : ((b.openOrders.filter fun o => chosen o.symbol).map Order.id).Nodup :=
    ((List.filter_sublist.trans List.filter_sublist).map Order.id).nodup hnodup
  rw [cancelAll_open hnodup hmem hids]
  congr 2
  refine List.map_congr_left fun o ho => ?_
  have hchosen : (o.id ∈ (b.openOrders.filter fun o => chosen o.symbol).map Order.id ∧
      o.status = .submitted) ↔ chosen o.symbol ∧ o.status = .submitted := by
    refine and_congr_left fun hopen => ?_
    rw [List.mem_map]
    constructor
    · rintro ⟨other, hother, hid⟩
      -- Numbers tell orders apart, so the chosen order of this number is `o`.
      obtain rfl := List.inj_on_of_nodup_map hnodup ho (hmem other hother).1 hid.symm
      exact (List.mem_filter.1 hother).2
    · intro hsymbol
      exact ⟨o, List.mem_filter.2 ⟨List.mem_filter.2 ⟨ho, Order.isOpen_iff.2 hopen⟩, hsymbol⟩, rfl⟩
  simp only [Order.withdrawn, Order.withdrawnOn, hchosen]

/-- Canceling for a symbol closes the open orders on it. -/
theorem cancelOpenFor_orders (hnodup : (b.orders.map Order.id).Nodup) (symbol : Symbol) :
    (b.cancelOpenFor symbol now).2.orders = b.orders.map (Order.withdrawnOn (· = symbol)) := by
  rw [cancelOpenFor, cancelAll_chosen hnodup now (· = symbol)]
  rfl

/-- What is open after canceling for a symbol was open before, on another symbol. -/
theorem mem_of_cancelOpenFor (hnodup : (b.orders.map Order.id).Nodup) {symbol : Symbol} {o : Order}
    (ho : o ∈ (b.cancelOpenFor symbol now).2.orders) (hopen : o.status = .submitted) :
    o ∈ b.orders ∧ o.symbol ≠ symbol := by
  rw [cancelOpenFor_orders hnodup] at ho
  obtain ⟨order, horder, rfl⟩ := List.mem_map.1 ho
  have hother : ¬ order.symbol = symbol := by
    have hboth := Order.isOpen_iff.2 hopen
    rw [Order.isOpen_withdrawnOn] at hboth
    simpa using (Bool.and_eq_true_iff.1 hboth).2
  rw [Order.withdrawnOn_of_not (by simpa using hother)]
  exact ⟨horder, hother⟩

/-- Canceling for a symbol leaves the orders on other symbols as they are. -/
theorem filter_cancelOpenFor (hnodup : (b.orders.map Order.id).Nodup) (symbol : Symbol) :
    ((b.cancelOpenFor symbol now).2.orders.filter fun o => o.symbol ≠ symbol) =
      b.orders.filter fun o => o.symbol ≠ symbol := by
  rw [cancelOpenFor_orders hnodup]
  simpa using Order.filter_withdrawnOn (· = symbol) b.orders

end OrderBook

end MarketReplay
