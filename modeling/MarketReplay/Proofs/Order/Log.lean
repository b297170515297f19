import Mathlib.Data.List.Nodup
import Mathlib.Logic.Relation
import MarketReplay.Order.Book

/-!
# Orders and their events agree

A book changes by edits: an order is accepted, or an open order is canceled or filled, and in each
case one event is queued (`OrderBook.Edit`). `OrderBook.Consistent` says that the orders, the two
counters, the queue and the events that left the queue fit together; every edit and every drain
keeps it (`Edit.consistent`, `Consistent.drain`). `submit` and `cancel` are one edit each, and
`evaluate` is a sequence of them.
-/

namespace MarketReplay

namespace Order

/-- What never changes about an order. -/
def terms (o : Order) : Nat × Symbol × Int × OrderType × Instant × Option String :=
  (o.id, o.symbol, o.quantity, o.orderType, o.submitted, o.tag)

/-- The order as it was accepted. -/
def opening (o : Order) : Order :=
  { o with status := .submitted, fillPrice := none, fillTime := none }

/-- How an open order is closed: canceled, or filled at a price and print time. -/
inductive Closes (o : Order) : Order → Prop where
  | cancel : Closes o { o with status := .canceled }
  | fill (price : Int) (time : DateTime) :
      Closes o { o with status := .filled, fillPrice := some price, fillTime := some time }

/-- What an order can be later on: of the same terms, and the same order once it is closed. -/
structure Becomes (o o' : Order) : Prop where
  terms_eq : o'.terms = o.terms
  eq_of_closed : o.status ≠ .submitted → o' = o

/-- The events of an order, in the order of creation: that of its submission, and once it is
closed that of its final state. -/
inductive Logged (o : Order) : List OrderEvent → Prop where
  | opened (seq : Nat) (hopen : o.status = .submitted) :
      Logged o [o.opening.event o.submitted seq]
  | closed (seq later : Nat) (now : Instant) (hclosed : o.status ≠ .submitted)
      (hlt : seq < later) :
      Logged o [o.opening.event o.submitted seq, o.event now later]

theorem Closes.status_ne {o o' : Order} (h : o.Closes o') : o'.status ≠ .submitted := by
  cases h <;> simp

theorem Closes.terms_eq {o o' : Order} (h : o.Closes o') : o'.terms = o.terms := by
  cases h <;> rfl

theorem Closes.id_eq {o o' : Order} (h : o.Closes o') : o'.id = o.id := by
  cases h <;> rfl

theorem Closes.opening_eq {o o' : Order} (h : o.Closes o') : o'.opening = o.opening := by
  cases h <;> rfl

theorem Closes.submitted_eq {o o' : Order} (h : o.Closes o') : o'.submitted = o.submitted := by
  cases h <;> rfl

theorem Becomes.refl (o : Order) : o.Becomes o := ⟨rfl, fun _ => rfl⟩

/-- What an order becomes and later becomes, it becomes. -/
theorem Becomes.trans {o o' o'' : Order} (h : o.Becomes o') (h' : o'.Becomes o'') :
    o.Becomes o'' := by
  refine ⟨h'.terms_eq.trans h.terms_eq, fun hclosed => ?_⟩
  obtain rfl := h.eq_of_closed hclosed
  exact h'.eq_of_closed hclosed

/-- An open order becomes what it is closed to. -/
theorem Closes.becomes {o o' : Order} (h : o.Closes o') (hopen : o.status = .submitted) :
    o.Becomes o' :=
  ⟨h.terms_eq, fun hclosed => absurd hopen hclosed⟩

/-- The events of an open order are completed by that of its closing. -/
theorem Logged.close {o o' : Order} {events : List OrderEvent} (now : Instant) {later : Nat}
    (h : o.Logged events) (hopen : o.status = .submitted) (hclose : o.Closes o')
    (hlater : ∀ e ∈ events, e.seq < later) : o'.Logged (events ++ [o'.event now later]) := by
  cases h with
  | opened seq _ =>
      have hlt : seq < later := hlater _ List.mem_cons_self
      rw [← hclose.opening_eq, ← hclose.submitted_eq]
      exact .closed seq later now hclose.status_ne hlt
  | closed _ _ _ hclosed _ => exact absurd hopen hclosed

/-- An order can change as long as it is only submitted. -/
theorem isOpen_iff {o : Order} : o.isOpen = true ↔ o.status = .submitted := by
  unfold isOpen OrderStatus.isTerminal
  cases o.status <;> simp

/-- An order that stands as it was accepted is submitted and has no fill. -/
theorem status_of_opening_eq {o : Order} (h : o.opening = o) :
    o.status = .submitted ∧ o.fillPrice = none ∧ o.fillTime = none := by
  rw [← h]
  exact ⟨rfl, rfl, rfl⟩

end Order

namespace OrderBook

/-- One change of a book, by the status it gives to an order: an order is accepted, or an open one
is closed. Its event is queued. -/
inductive Edit (b : OrderBook) : OrderStatus → OrderBook → Prop where
  | accept (order : Order) (warnings : List String) (hid : order.id = b.orders.length + 1)
      (hnew : order.opening = order) :
      Edit b .submitted
        (({ b with orders := b.orders ++ [order], warnings } : OrderBook).queue order
          order.submitted)
  | close (front back : List Order) (order closed : Order) (now : Instant)
      (horders : b.orders = front ++ order :: back) (hopen : order.status = .submitted)
      (hclose : order.Closes closed) :
      Edit b closed.status
        (({ b with orders := front ++ closed :: back } : OrderBook).queue closed now)

/-- The events of a book: those that left its queue so far, and those that wait in it. -/
def log (b : OrderBook) (past : List OrderEvent) : List OrderEvent := past ++ b.pending

/-- Orders, counters, queue and the events that left the queue fit together. -/
structure Consistent (b : OrderBook) (past : List OrderEvent) : Prop where
  ids : b.orders.map Order.id = List.range' 1 b.orders.length
  fills : ∀ o ∈ b.orders, (o.fillPrice.isSome ↔ o.status = .filled) ∧
    (o.fillTime.isSome ↔ o.status = .filled)
  seqs : ((b.log past).map OrderEvent.seq).Perm (List.range b.nextSeq)
  logged : ∀ o ∈ b.orders, o.Logged ((b.log past).filter fun e => e.orderId = o.id)
  owned : ∀ e ∈ b.log past, ∃ o ∈ b.orders, e.orderId = o.id

/-- The orders of one book are those of another at an earlier time. -/
def Precedes (b b' : OrderBook) : Prop :=
  ∀ (i : Nat) (o : Order), b.orders[i]? = some o → ∃ o', b'.orders[i]? = some o' ∧ o.Becomes o'

theorem Precedes.refl (b : OrderBook) : b.Precedes b := fun _ o h => ⟨o, h, .refl o⟩

theorem Precedes.trans {b b' b'' : OrderBook} (h : b.Precedes b') (h' : b'.Precedes b'') :
    b.Precedes b'' := by
  intro i o hi
  obtain ⟨o', hi', ho⟩ := h i o hi
  obtain ⟨o'', hi'', ho'⟩ := h' i o' hi'
  exact ⟨o'', hi'', ho.trans ho'⟩

/-- An edit only adds an order or closes an open one. -/
theorem Edit.precedes {b b' : OrderBook} {s : OrderStatus} (h : Edit b s b') : b.Precedes b' := by
  intro i o hi
  cases h with
  | accept order warnings =>
      refine ⟨o, ?_, .refl o⟩
      have hlt : i < b.orders.length := (List.getElem?_eq_some_iff.1 hi).1
      exact (List.getElem?_append_left hlt).trans hi
  | close front back order closed now horders hopen hclose =>
      rw [horders] at hi
      simp only [queue]
      by_cases hlen : i = front.length
      · subst hlen
        simp only [List.getElem?_append_right (Nat.le_refl _), Nat.sub_self,
          List.getElem?_cons_zero, Option.some.injEq] at hi ⊢
        subst hi
        exact ⟨closed, rfl, hclose.becomes hopen⟩
      · refine ⟨o, ?_, .refl o⟩
        rw [← hi]
        rcases Nat.lt_or_gt_of_ne hlen with hlt | hgt
        · rw [List.getElem?_append_left hlt, List.getElem?_append_left hlt]
        · obtain ⟨k, hk⟩ : ∃ k, i - front.length = k + 1 := ⟨i - front.length - 1, by omega⟩
          rw [List.getElem?_append_right (by omega), List.getElem?_append_right (by omega), hk]
          rfl

namespace Consistent

variable {b : OrderBook} {past : List OrderEvent}

/-- No two orders have one number. -/
theorem ids_nodup (h : Consistent b past) : (b.orders.map Order.id).Nodup := by
  rw [h.ids]
  exact List.nodup_range'

/-- The numbers of orders are 1 to their count. -/
theorem id_bounds (h : Consistent b past) {o : Order} (ho : o ∈ b.orders) :
    1 ≤ o.id ∧ o.id ≤ b.orders.length := by
  have hmem : o.id ∈ b.orders.map Order.id := List.mem_map_of_mem ho
  rw [h.ids, List.mem_range'_1] at hmem
  omega

/-- The sequence numbers given so far are below the next one. -/
theorem seq_lt (h : Consistent b past) {e : OrderEvent} (he : e ∈ b.log past) :
    e.seq < b.nextSeq :=
  List.mem_range.1 (h.seqs.mem_iff.1 (List.mem_map_of_mem he))

/-- No event is of an order that was not accepted. -/
theorem filter_eq_nil (h : Consistent b past) {id : Nat} (hid : b.orders.length < id) :
    ((b.log past).filter fun e => e.orderId = id) = [] := by
  refine List.filter_eq_nil_iff.2 fun e he hfalse => ?_
  obtain ⟨o, ho, hown⟩ := h.owned e he
  have hbound := (h.id_bounds ho).2
  have heq : e.orderId = id := of_decide_eq_true hfalse
  omega

/-- One more event has the next sequence number. -/
theorem seqs_snoc (h : Consistent b past) {e : OrderEvent} (he : e.seq = b.nextSeq) :
    ((b.log past ++ [e]).map OrderEvent.seq).Perm (List.range (b.nextSeq + 1)) := by
  rw [List.map_append, List.range_succ, List.map_singleton, he]
  exact h.seqs.append_right _

end Consistent

/-- A book without orders is consistent. -/
theorem consistent_start (calendar : Calendar) (policy : BuyingPowerPolicy) :
    Consistent (.start calendar policy) [] where
  ids := rfl
  fills := by simp [start]
  seqs := .refl _
  logged := by simp [start]
  owned := by simp [start, log]

/-- Queueing appends to the events of a book. -/
theorem log_queue (b : OrderBook) (past : List OrderEvent) (o : Order) (now : Instant) :
    (b.queue o now).log past = b.log past ++ [o.event now b.nextSeq] :=
  (List.append_assoc past b.pending _).symm

/-- Accepting an order keeps a book consistent: no earlier event has its number. -/
theorem Consistent.accept {b : OrderBook} {past : List OrderEvent} (h : Consistent b past)
    {order : Order} (warnings : List String) (hid : order.id = b.orders.length + 1)
    (hnew : order.opening = order) :
    Consistent (({ b with orders := b.orders ++ [order], warnings } : OrderBook).queue order
      order.submitted) past := by
  obtain ⟨hstatus, hprice, htime⟩ := Order.status_of_opening_eq hnew
  have hlog : (({ b with orders := b.orders ++ [order], warnings } : OrderBook).queue order
      order.submitted).log past = b.log past ++ [order.event order.submitted b.nextSeq] :=
    log_queue _ past order order.submitted
  constructor
  case ids =>
    simp [queue, h.ids, hid, List.range'_concat, Nat.add_comm]
  case fills =>
    intro o ho
    rcases List.mem_append.1 ho with ho | ho
    · exact h.fills o ho
    · obtain rfl := List.mem_singleton.1 ho
      simp [hstatus, hprice, htime]
  case seqs =>
    rw [hlog]
    exact h.seqs_snoc rfl
  case logged =>
    intro o ho
    rw [hlog, List.filter_append]
    rcases List.mem_append.1 ho with ho | ho
    · have hne : order.id ≠ o.id := by
        have := (h.id_bounds ho).2
        omega
      simpa [Order.event, hne] using h.logged o ho
    · obtain rfl := List.mem_singleton.1 ho
      rw [h.filter_eq_nil (by omega)]
      have hopened := Order.Logged.opened (o := o) b.nextSeq hstatus
      rw [hnew] at hopened
      simpa [Order.event] using hopened
  case owned =>
    intro e he
    rw [hlog] at he
    rcases List.mem_append.1 he with he | he
    · obtain ⟨o, ho, hown⟩ := h.owned e he
      exact ⟨o, List.mem_append_left _ ho, hown⟩
    · obtain rfl := List.mem_singleton.1 he
      exact ⟨order, List.mem_append_right _ List.mem_cons_self, rfl⟩

/-- Closing an open order keeps a book consistent: its one event is followed by that of its
closing, and the events of all other orders stay. -/
theorem Consistent.close {b : OrderBook} {past : List OrderEvent} (h : Consistent b past)
    {front back : List Order} {order closed : Order} (now : Instant)
    (horders : b.orders = front ++ order :: back) (hopen : order.status = .submitted)
    (hclose : order.Closes closed) :
    Consistent (({ b with orders := front ++ closed :: back } : OrderBook).queue closed now)
      past := by
  have horder : order ∈ b.orders := by
    rw [horders]
    exact List.mem_append_right _ List.mem_cons_self
  have hlog : (({ b with orders := front ++ closed :: back } : OrderBook).queue closed now).log
      past = b.log past ++ [closed.event now b.nextSeq] := log_queue _ past closed now
  have hids : (front ++ closed :: back).map Order.id = b.orders.map Order.id := by
    simp [horders, hclose.id_eq]
  -- Every order but the closed one was in the book, under another number.
  have hothers : ∀ o ∈ front ++ back, o ∈ b.orders ∧ o.id ≠ order.id := by
    intro o ho
    have hnodup := h.ids_nodup
    rw [horders, List.map_append, List.map_cons, List.nodup_middle, List.nodup_cons] at hnodup
    have hperm : o ∈ b.orders := by
      rw [horders]
      rcases List.mem_append.1 ho with ho | ho
      · exact List.mem_append_left _ ho
      · exact List.mem_append_right _ (List.mem_cons_of_mem _ ho)
    refine ⟨hperm, fun heq => hnodup.1 ?_⟩
    rw [← heq, ← List.map_append]
    exact List.mem_map_of_mem ho
  have hcases : ∀ o ∈ front ++ closed :: back, o = closed ∨ o ∈ front ++ back := by
    intro o ho
    simpa [or_left_comm] using ho
  constructor
  case ids =>
    have hlen : (front ++ closed :: back).length = b.orders.length := by simp [horders]
    rw [show (({ b with orders := front ++ closed :: back } : OrderBook).queue closed now).orders =
      front ++ closed :: back from rfl, hids, hlen, h.ids]
  case fills =>
    intro o ho
    rcases hcases o ho with rfl | ho
    · have hold := h.fills order horder
      cases hclose <;> simp_all
    · exact h.fills o (hothers o ho).1
  case seqs =>
    rw [hlog]
    exact h.seqs_snoc rfl
  case logged =>
    intro o ho
    rw [hlog, List.filter_append]
    rcases hcases o ho with rfl | ho
    · have hold := h.logged order horder
      rw [← hclose.id_eq] at hold
      have hnew := hold.close now hopen hclose
        fun e he => h.seq_lt (List.mem_filter.1 he).1
      simpa [Order.event] using hnew
    · obtain ⟨hmem, hne⟩ := hothers o ho
      have hne : closed.id ≠ o.id := by
        rw [hclose.id_eq]
        exact hne.symm
      simpa [Order.event, hne] using h.logged o hmem
  case owned =>
    intro e he
    have hown : e.orderId ∈ b.orders.map Order.id := by
      rw [hlog] at he
      rcases List.mem_append.1 he with he | he
      · obtain ⟨o, ho, hown⟩ := h.owned e he
        exact hown ▸ List.mem_map_of_mem ho
      · obtain rfl := List.mem_singleton.1 he
        rw [show (closed.event now b.nextSeq).orderId = order.id from hclose.id_eq]
        exact List.mem_map_of_mem horder
    rw [← hids] at hown
    obtain ⟨o, ho, hid⟩ := List.mem_map.1 hown
    exact ⟨o, ho, hid.symm⟩

/-- Every edit keeps a book consistent. -/
theorem Edit.consistent {b b' : OrderBook} {s : OrderStatus} {past : List OrderEvent}
    (h : Edit b s b') (hb : Consistent b past) : Consistent b' past := by
  cases h with
  | accept order warnings hid hnew => exact hb.accept warnings hid hnew
  | close front back order closed now horders hopen hclose =>
      exact hb.close now horders hopen hclose

/-! ### Drained batches -/

/-- The strict order in which events are delivered: by submission, then by order number, then by
creation. -/
def Before (a b : OrderEvent) : Prop :=
  a.submitted.time < b.submitted.time ∨
    a.submitted.time = b.submitted.time ∧
      (a.orderId < b.orderId ∨ a.orderId = b.orderId ∧ a.seq < b.seq)

instance (a b : OrderEvent) : Decidable (Before a b) := inferInstanceAs (Decidable (_ ∨ _))

/-- No event is delivered before one that is delivered before it. -/
theorem Before.asymm {a b : OrderEvent} (h : Before a b) : ¬ Before b a := by
  intro h'
  rcases h with hlt | ⟨heq, h⟩ <;> rcases h' with hlt' | ⟨heq', h'⟩
  · exact Int.lt_asymm hlt hlt'
  · exact Int.lt_irrefl _ (heq' ▸ hlt)
  · exact Int.lt_irrefl _ (heq ▸ hlt')
  · omega

/-- Delivery compares three numbers in turn. -/
theorem delivers_iff (a b : OrderEvent) :
    delivers a b ↔ a.submitted.time.stamp < b.submitted.time.stamp ∨
      a.submitted.time.stamp = b.submitted.time.stamp ∧
        (a.orderId < b.orderId ∨ a.orderId = b.orderId ∧ a.seq ≤ b.seq) := by
  have hstamp : a.submitted.time = b.submitted.time ↔
      a.submitted.time.stamp = b.submitted.time.stamp :=
    ⟨congrArg DateTime.stamp, DateTime.ext_stamp⟩
  simp only [delivers, Bool.or_eq_true, Bool.and_eq_true, decide_eq_true_eq, hstamp]
  exact Iff.rfl

theorem delivers_trans (a b c : OrderEvent) (hab : delivers a b) (hbc : delivers b c) :
    delivers a c := by
  rw [delivers_iff] at *
  omega

theorem delivers_total (a b : OrderEvent) : delivers a b || delivers b a := by
  rw [Bool.or_eq_true, delivers_iff, delivers_iff]
  omega

/-- A batch whose events are told apart by their sequence numbers is strictly sorted. -/
theorem drain_pairwise {b : OrderBook} (hnodup : (b.pending.map OrderEvent.seq).Nodup) :
    b.drain.1.Pairwise Before := by
  have hsorted : b.drain.1.Pairwise fun a b => delivers a b :=
    List.pairwise_mergeSort delivers_trans delivers_total b.pending
  have hseqs : (b.drain.1.map OrderEvent.seq).Nodup :=
    ((List.mergeSort_perm b.pending delivers).map _).nodup_iff.2 hnodup
  refine (hsorted.and (List.pairwise_map.1 hseqs)).imp ?_
  rintro x y ⟨hle, hne⟩
  rw [delivers_iff] at hle
  rcases hle with hlt | ⟨heq, hlt | ⟨hid, hseq⟩⟩
  · exact .inl hlt
  · exact .inr ⟨DateTime.ext_stamp heq, .inl hlt⟩
  · exact .inr ⟨DateTime.ext_stamp heq, .inr ⟨hid, by omega⟩⟩

/-- The events of an order stand in the order of delivery. -/
theorem logged_pairwise {o : Order} {events : List OrderEvent}
    (h : o.Logged events) : events.Pairwise fun a b => delivers a b := by
  cases h with
  | opened => exact List.pairwise_singleton _ _
  | closed seq later now _ hlt =>
      refine List.pairwise_pair.2 ((delivers_iff _ _).2 (.inr ⟨rfl, .inr ⟨rfl, ?_⟩⟩))
      exact Nat.le_of_lt hlt

/-- Sorting a queue keeps the events of a number in their order where they were sorted. -/
theorem filter_drain {b : OrderBook} {id : Nat}
    (h : (b.pending.filter fun e => e.orderId = id).Pairwise fun a b => delivers a b) :
    (b.drain.1.filter fun e => e.orderId = id) = b.pending.filter fun e => e.orderId = id := by
  have hsub : (b.pending.filter fun e => e.orderId = id).Sublist b.drain.1 :=
    List.sublist_mergeSort delivers_trans delivers_total h List.filter_sublist
  have hfilter := hsub.filter fun e => e.orderId = id
  simp only [List.filter_filter, Bool.and_self] at hfilter
  refine (hfilter.eq_of_length ?_).symm
  exact ((List.mergeSort_perm b.pending delivers).filter _).length_eq.symm

/-- A drain moves the queue, sorted, to the events that left it; what an order's events are does
not change. -/
theorem Consistent.drain {b : OrderBook} {past : List OrderEvent} (h : Consistent b past) :
    Consistent b.drain.2 (past ++ b.drain.1) := by
  have hlog : b.drain.2.log (past ++ b.drain.1) = past ++ b.drain.1 := List.append_nil _
  have hperm : (past ++ b.drain.1).Perm (b.log past) :=
    (List.mergeSort_perm b.pending delivers).append_left past
  constructor
  case ids => exact h.ids
  case fills => exact h.fills
  case seqs =>
    rw [hlog]
    exact (hperm.map _).trans h.seqs
  case logged =>
    intro o ho
    have hold := h.logged o ho
    have hpending : (b.pending.filter fun e => e.orderId = o.id).Pairwise
        fun a b => delivers a b := by
      rw [log, List.filter_append] at hold
      exact (List.pairwise_append.1 (logged_pairwise hold)).2.1
    rw [hlog, List.filter_append, filter_drain hpending, ← List.filter_append]
    exact hold
  case owned =>
    intro e he
    rw [hlog] at he
    exact h.owned e (hperm.mem_iff.1 he)

/-- The events that wait in the queue of a consistent book are told apart by their sequence
numbers. -/
theorem Consistent.pending_nodup {b : OrderBook} {past : List OrderEvent}
    (h : Consistent b past) : (b.pending.map OrderEvent.seq).Nodup := by
  have hnodup := h.seqs.nodup_iff.2 List.nodup_range
  rw [log, List.map_append] at hnodup
  exact (List.nodup_append.1 hnodup).2.1

/-! ### Operations as edits -/

/-- A sequence of edits that give statuses of one kind. -/
def Edits (kind : OrderStatus → Prop) : OrderBook → OrderBook → Prop :=
  Relation.ReflTransGen fun b b' => ∃ s, kind s ∧ Edit b s b'

variable {kind : OrderStatus → Prop}

/-- No edit is a sequence of edits. -/
theorem Edits.refl (b : OrderBook) : Edits kind b b := Relation.ReflTransGen.refl

/-- One edit is a sequence of edits. -/
theorem Edit.edits {b b' : OrderBook} {s : OrderStatus} (h : Edit b s b')
    (kind : OrderStatus → Prop) (hs : kind s) : Edits kind b b' := .single ⟨s, hs, h⟩

/-- Edits after edits are edits. -/
theorem Edits.trans {b b' b'' : OrderBook} (h : Edits kind b b') (h' : Edits kind b' b'') :
    Edits kind b b'' := Relation.ReflTransGen.trans h h'

/-- Edits of one kind are edits of a wider one. -/
theorem Edits.mono {kind' : OrderStatus → Prop} {b b' : OrderBook} (h : Edits kind b b')
    (hkind : ∀ s, kind s → kind' s) : Edits kind' b b' := by
  induction h with
  | refl => exact .refl b
  | tail _ hedit ih =>
      obtain ⟨s, hs, hedit⟩ := hedit
      exact ih.trans (hedit.edits kind' (hkind s hs))

/-- Edits keep a book consistent. -/
theorem Edits.consistent {b b' : OrderBook} {past : List OrderEvent} (h : Edits kind b b')
    (hb : Consistent b past) : Consistent b' past := by
  induction h with
  | refl => exact hb
  | tail _ hedit ih => exact hedit.choose_spec.2.consistent ih

/-- Edits only add orders and close open ones. -/
theorem Edits.precedes {b b' : OrderBook} (h : Edits kind b b') : b.Precedes b' := by
  induction h with
  | refl => exact .refl b
  | tail _ hedit ih => exact ih.trans hedit.choose_spec.2.precedes

/-- Where numbers tell orders apart, an order is found by its number. -/
theorem get?_eq_some_iff {b : OrderBook} (hnodup : (b.orders.map Order.id).Nodup) {id : Nat}
    {o : Order} : b.get? id = some o ↔ o ∈ b.orders ∧ o.id = id := by
  constructor
  · intro hget
    exact ⟨List.mem_of_find?_eq_some hget, by simpa using List.find?_some hget⟩
  · rintro ⟨ho, rfl⟩
    cases hget : b.get? o.id with
    | none =>
        have hnot := List.find?_eq_none.1 hget o ho
        simp at hnot
    | some other =>
        have hid : other.id = o.id := by simpa using List.find?_some hget
        exact congrArg some
          (List.inj_on_of_nodup_map hnodup (List.mem_of_find?_eq_some hget) ho hid)

/-- An accepted request adds its order to the book, and queues the event. -/
theorem submit_eq_ok {b b' : OrderBook} {request : OrderRequest} {tracked : Universe} {cash : Int}
    {now : Instant} {order : Order}
    (h : b.submit request tracked cash now = .ok (order, b')) :
    ∃ warnings, b.check request tracked cash now = .ok warnings ∧
      order = b.accepted request now ∧
      b' = ({ b with orders := b.orders ++ [order], warnings } : OrderBook).queue order now := by
  unfold submit at h
  split at h
  · cases h
  · rename_i warnings hcheck
    obtain ⟨rfl, rfl⟩ := Prod.mk.inj (Except.ok.inj h)
    exact ⟨warnings, hcheck, rfl, rfl⟩

/-- A cancellation closes an open order of the book, and queues the event that it answers. -/
theorem cancel_eq_ok {b b' : OrderBook} {id : Nat} {now : Instant} {e : OrderEvent}
    (h : b.cancel id now = .ok (e, b')) :
    ∃ order, b.get? id = some order ∧ order.status = .submitted ∧
      e = ({ order with status := .canceled } : Order).event now b.nextSeq ∧
      b' = ({ b with orders := replace { order with status := .canceled } b.orders } :
        OrderBook).queue { order with status := .canceled } now := by
  unfold cancel at h
  split at h
  · cases h
  · rename_i order hget
    by_cases hopen : order.status = .submitted
    · have htransition : order.transition .canceled = .ok { order with status := .canceled } := by
        simp [Order.transition, hopen]
      rw [htransition] at h
      obtain ⟨rfl, rfl⟩ := Prod.mk.inj (Except.ok.inj h)
      exact ⟨order, hget, hopen, rfl, rfl⟩
    · have htransition : order.transition .canceled =
          .error ⟨order.id, order.status, .canceled⟩ := by
        simp [Order.transition, hopen]
      rw [htransition] at h
      cases h

/-- An accepted request is one edit, and its order is the last of the book. -/
theorem submit_edit {b b' : OrderBook} {request : OrderRequest} {tracked : Universe} {cash : Int}
    {now : Instant} {order : Order}
    (h : b.submit request tracked cash now = .ok (order, b')) :
    Edit b .submitted b' ∧ order = b.accepted request now ∧ b'.orders = b.orders ++ [order] := by
  obtain ⟨warnings, -, rfl, rfl⟩ := submit_eq_ok h
  exact ⟨.accept (b.accepted request now) warnings rfl rfl, rfl, rfl⟩

/-- Where numbers are told apart, replacing an order by its number replaces it at its place. -/
theorem replace_eq {front back : List Order} {order closed : Order} (hid : closed.id = order.id)
    (hnodup : ((front ++ order :: back).map Order.id).Nodup) :
    replace closed (front ++ order :: back) = front ++ closed :: back := by
  rw [List.map_append, List.map_cons, List.nodup_middle, List.nodup_cons, ← List.map_append]
    at hnodup
  have hkeep : ∀ o ∈ front ++ back, (if o.id = closed.id then closed else o) = o := by
    intro o ho
    refine if_neg fun heq => hnodup.1 ?_
    rw [← hid, ← heq]
    exact List.mem_map_of_mem ho
  have hmap : ∀ l : List Order, (∀ o ∈ l, o ∈ front ++ back) →
      l.map (fun o => if o.id = closed.id then closed else o) = l :=
    fun l hl => (List.map_congr_left fun o ho => hkeep o (hl o ho)).trans (List.map_id l)
  rw [replace, List.map_append, List.map_cons, hmap front fun o ho => List.mem_append_left _ ho,
    hmap back fun o ho => List.mem_append_right _ ho, if_pos hid.symm]

/-- A cancellation is one edit of an open order. -/
theorem cancel_edit {b b' : OrderBook} {id : Nat} {now : Instant} {e : OrderEvent}
    (hnodup : (b.orders.map Order.id).Nodup) (h : b.cancel id now = .ok (e, b')) :
    Edit b .canceled b' := by
  obtain ⟨order, hget, hopen, -, rfl⟩ := cancel_eq_ok h
  obtain ⟨-, front, back, horders, -⟩ := List.find?_eq_some_iff_append.1 hget
  have hclose : order.Closes { order with status := .canceled } := .cancel
  rw [horders, replace_eq hclose.id_eq (horders ▸ hnodup)]
  exact .close front back order _ now horders hopen hclose

/-- A cancellation queues the event that it answers. -/
theorem cancel_pending {b b' : OrderBook} {id : Nat} {now : Instant} {e : OrderEvent}
    (h : b.cancel id now = .ok (e, b')) : b'.pending = b.pending ++ [e] := by
  obtain ⟨order, -, -, rfl, rfl⟩ := cancel_eq_ok h
  rfl

/-- Cancellations in turn are edits. -/
theorem cancelAll_edits {now : Instant} {past : List OrderEvent} (ids : List Nat) {b : OrderBook}
    (hb : Consistent b past) : Edits (· = .canceled) b (cancelAll now ids b).2 := by
  induction ids generalizing b with
  | nil => exact .refl b
  | cons id rest ih =>
      rw [cancelAll]
      split
      · exact ih hb
      · rename_i e b' hcancel
        have hedit := cancel_edit hb.ids_nodup hcancel
        exact (hedit.edits (· = .canceled) rfl).trans (ih (hedit.consistent hb))

/-- A matched order was open and is closed by a fill. -/
theorem fill?_closes {calendar : Calendar} {now : Instant} {slice : DataSlice}
    {order filled : Order} (h : fill? calendar now slice order = some filled) :
    order.status = .submitted ∧ order.Closes filled ∧ filled.status = .filled := by
  unfold fill? at h
  split at h
  · rename_i hcan
    have hopen : order.status = .submitted := by
      rw [Bool.and_eq_true] at hcan
      exact Order.isOpen_iff.1 hcan.1
    split at h
    · exact absurd h (by simp)
    · obtain ⟨⟨price, time⟩, -, rfl⟩ := Option.map_eq_some_iff.1 h
      exact ⟨hopen, .fill price time, rfl⟩
  · exact absurd h (by simp)

/-- Matching the orders behind `front` is a sequence of fills. -/
theorem matchAll_edits {now : Instant} {slice : DataSlice} (rest front : List Order)
    {b : OrderBook} (horders : b.orders = front ++ rest) :
    Edits (· = .filled) b
      { b with
        orders := front ++ (matchAll b.calendar now slice b.nextSeq rest).1
        pending := b.pending ++ (matchAll b.calendar now slice b.nextSeq rest).2
        nextSeq := b.nextSeq + (matchAll b.calendar now slice b.nextSeq rest).2.length } := by
  induction rest generalizing front b with
  | nil =>
      simp only [matchAll, List.append_nil, List.length_nil, Nat.add_zero] at horders ⊢
      rw [← horders]
      exact .refl b
  | cons order rest ih =>
      rw [matchAll]
      split
      · simpa using ih (front ++ [order]) (by simpa using horders)
      · rename_i filled hfill
        obtain ⟨hopen, hclose, hstatus⟩ := fill?_closes hfill
        have hedit := Edit.close front rest order filled now horders hopen hclose
        refine (hedit.edits (· = .filled) hstatus).trans ?_
        have hrest := ih (front ++ [filled])
          (b := ({ b with orders := front ++ filled :: rest } : OrderBook).queue filled now)
          (by simp [queue])
        simpa [queue, Nat.add_assoc, Nat.add_comm 1] using hrest

/-- Matching a book is a sequence of fills. -/
theorem evaluate_edits (b : OrderBook) (now : Instant) (slice : DataSlice) :
    Edits (· = .filled) b (b.evaluate now slice).2 :=
  matchAll_edits b.orders [] rfl

end OrderBook

end MarketReplay
