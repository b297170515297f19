import MarketReplay.Proofs.Order.Matching
import MarketReplay.Proofs.Run.Kernels

/-!
# What a step does to each order

A step first matches the orders that there are; then callbacks submit new ones and cancel open ones
at its instant. So an order of the book is filled by the slice, canceled, or kept (`Order.Moves`),
and an order that is new was submitted at the instant and is not filled (`step_origin`). What a
book keeps through all of this holds of the books of a run (`Engine.after_book`).
-/

namespace MarketReplay

/-- What a step at an instant with a slice can make of an order: it is filled by the slice; or the
slice does not fill it, and it stays, or is canceled if it was open. -/
inductive Order.Moves (calendar : Calendar) (now : Instant) (slice : DataSlice) (o : Order) :
    Order → Prop where
  | fill (filled : Order) (h : OrderBook.fill? calendar now slice o = some filled) :
      Moves calendar now slice o filled
  | keep (h : OrderBook.fill? calendar now slice o = none) : Moves calendar now slice o o
  | cancel (h : OrderBook.fill? calendar now slice o = none) (hopen : o.status = .submitted) :
      Moves calendar now slice o { o with status := .canceled }

/-- An order only becomes something else if it was open. -/
theorem Order.Moves.becomes {calendar : Calendar} {now : Instant} {slice : DataSlice}
    {o o' : Order} (h : o.Moves calendar now slice o') : o.Becomes o' := by
  cases h with
  | fill _ hfill =>
      obtain ⟨hopen, hclose, -⟩ := OrderBook.fill?_closes hfill
      exact hclose.becomes hopen
  | keep => exact .refl o
  | cancel _ hopen => exact Order.Closes.cancel.becomes hopen

/-- An order keeps its number. -/
theorem Order.Becomes.id_eq {o o' : Order} (h : o.Becomes o') : o'.id = o.id :=
  congrArg Prod.fst h.terms_eq

/-- An order keeps its instant of submission. -/
theorem Order.Becomes.submitted_eq {o o' : Order} (h : o.Becomes o') :
    o'.submitted = o.submitted :=
  congrArg (fun terms => terms.2.2.2.2.1) h.terms_eq

/-- An order keeps its type. -/
theorem Order.Becomes.orderType_eq {o o' : Order} (h : o.Becomes o') :
    o'.orderType = o.orderType :=
  congrArg (fun terms => terms.2.2.2.1) h.terms_eq

/-- An order keeps its symbol. -/
theorem Order.Becomes.symbol_eq {o o' : Order} (h : o.Becomes o') : o'.symbol = o.symbol :=
  congrArg (fun terms => terms.2.1) h.terms_eq

namespace OrderBook

/-- In a consistent book an order is found by its number. -/
theorem Consistent.get?_eq_some_iff {b : OrderBook} {past : List OrderEvent}
    (h : b.Consistent past) {id : Nat} {o : Order} :
    b.get? id = some o ↔ o ∈ b.orders ∧ o.id = id :=
  OrderBook.get?_eq_some_iff h.ids_nodup

/-- A book has no order of a number that none of its orders has. -/
theorem get?_eq_none_iff {b : OrderBook} {id : Nat} :
    b.get? id = none ↔ id ∉ b.orders.map Order.id := by
  unfold get?
  rw [List.find?_eq_none, List.mem_map]
  simp

/-! ### Submissions and cancellations -/

/-- A book and what submissions and cancellations at an instant make of it: its orders stay, or are
canceled if they were open, and new ones are submitted at the instant and not filled. -/
structure Placed (now : Instant) (b b' : OrderBook) : Prop where
  ids : b.orders.map Order.id <+: b'.orders.map Order.id
  origin : ∀ o' ∈ b'.orders,
    (o'.submitted = now ∧ o'.status ≠ .filled ∧ o'.id ∉ b.orders.map Order.id) ∨
      ∃ o ∈ b.orders, o' = o ∨ o.status = .submitted ∧ o' = { o with status := .canceled }

theorem Placed.refl (now : Instant) (b : OrderBook) : Placed now b b :=
  ⟨List.prefix_refl _, fun o ho => .inr ⟨o, ho, .inl rfl⟩⟩

/-- An accepted order is new: its number is higher than those before. -/
theorem Placed.submit {now : Instant} {b b' b'' : OrderBook} {past : List OrderEvent}
    (h : Placed now b b') (hb : b'.Consistent past) {request : OrderRequest} {tracked : Universe}
    {cash : Int} {order : Order}
    (hsubmit : b'.submit request tracked cash now = .ok (order, b'')) : Placed now b b'' := by
  obtain ⟨-, rfl, horders⟩ := submit_edit hsubmit
  refine ⟨?_, fun o ho => ?_⟩
  · rw [horders, List.map_append]
    exact h.ids.trans (List.prefix_append _ _)
  · rw [horders] at ho
    rcases List.mem_append.1 ho with ho | ho
    · exact h.origin o ho
    · obtain rfl := List.mem_singleton.1 ho
      -- The numbers of the book go up to its length, and the new one is the next.
      refine .inl ⟨rfl, nofun, fun hmem => ?_⟩
      obtain ⟨other, hother, hid⟩ := List.mem_map.1 (h.ids.subset hmem)
      have hbound := (hb.id_bounds hother).2
      rw [hid] at hbound
      exact Nat.not_succ_le_self _ hbound

/-- A cancellation closes one open order. -/
theorem Edit.canceled {b b' : OrderBook} (h : Edit b .canceled b') :
    ∃ front order back, b.orders = front ++ order :: back ∧ order.status = .submitted ∧
      b'.orders = front ++ { order with status := .canceled } :: back := by
  generalize hs : OrderStatus.canceled = s at h
  cases h with
  | accept => cases hs
  | close front back order closed now horders hopen hclose =>
      cases hclose with
      | cancel => exact ⟨front, order, back, horders, hopen, rfl⟩
      | fill => cases hs

/-- A canceled order was open, in the book before or as a new one. -/
theorem Placed.cancel {now : Instant} {b b' b'' : OrderBook} {past : List OrderEvent}
    (h : Placed now b b') (hb : b'.Consistent past) {id : Nat} {e : OrderEvent}
    (hcancel : b'.cancel id now = .ok (e, b'')) : Placed now b b'' := by
  obtain ⟨front, order, back, horders, hopen, horders'⟩ :=
    (cancel_edit hb.ids_nodup hcancel).canceled
  refine ⟨?_, fun o ho => ?_⟩
  · have hids : b''.orders.map Order.id = b'.orders.map Order.id := by simp [horders, horders']
    rw [hids]
    exact h.ids
  · have hcases : o ∈ b'.orders ∨ o = { order with status := .canceled } := by
      rw [horders'] at ho
      rw [horders]
      rcases List.mem_append.1 ho with ho | ho
      · exact .inl (List.mem_append_left _ ho)
      · rcases List.mem_cons.1 ho with rfl | ho
        · exact .inr rfl
        · exact .inl (List.mem_append_right _ (List.mem_cons_of_mem _ ho))
    rcases hcases with ho | rfl
    · exact h.origin o ho
    · have horder : order ∈ b'.orders := by
        rw [horders]
        exact List.mem_append_cons_self
      rcases h.origin order horder with ⟨hnow, -, hnew⟩ | ⟨old, hold, rfl | ⟨-, rfl⟩⟩
      · exact .inl ⟨hnow, nofun, hnew⟩
      · exact .inr ⟨order, hold, .inr ⟨hopen, rfl⟩⟩
      · cases hopen

/-- Submissions and cancellations at an instant only place orders, and keep a book consistent. -/
theorem placed_keptAt (now : Instant) (b : OrderBook) :
    KeptAt now fun b' => (∃ past, b'.Consistent past) ∧ Placed now b b' where
  submit := by
    rintro b' b'' request tracked cash order ⟨⟨past, hb⟩, hplaced⟩ hsubmit
    exact ⟨⟨past, (submit_edit hsubmit).1.consistent hb⟩, hplaced.submit hb hsubmit⟩
  cancel := by
    rintro b' b'' id e ⟨⟨past, hb⟩, hplaced⟩ hcancel
    exact ⟨⟨past, (cancel_edit hb.ids_nodup hcancel).consistent hb⟩, hplaced.cancel hb hcancel⟩

end OrderBook

namespace RunState

variable {S : Strategy} {sel : Selector} {now : Instant}

/-! ### The book through a step -/

section Books

variable {P : OrderBook → Prop}

/-- A callback submits and cancels at its instant. -/
theorem call_book (h : OrderBook.KeptAt now P) {r : RunState S sel} (hr : P r.kernel.book)
    (label : String) (program : S.State → Program S.Code (Outcome S.State)) :
    P (r.call now label program).1.kernel.book :=
  h.run (program r.strategy) hr

/-- Changes and slice are told by callbacks. -/
theorem notify_book (h : OrderBook.KeptAt now P) {r : RunState S sel} (hr : P r.kernel.book)
    (changes : Changes) (slice : DataSlice) : P (r.notify now changes slice).1.kernel.book :=
  notify_kernel (P := fun k => P k.book) (fun c _ => h.execute c) hr changes slice

/-- Deliveries are made by callbacks. -/
theorem deliverAll_book (h : OrderBook.KeptAt now P) (deliveries : List Delivery)
    {r : RunState S sel} (hr : P r.kernel.book) :
    P (deliverAll now deliveries r).1.kernel.book :=
  deliverAll_kernel (P := fun k => P k.book) (fun c _ => h.execute c) deliveries hr

/-- After the market's part of a step its book is drained once, and otherwise changed by submissions
and cancellations at its instant. -/
theorem step_book (h : OrderBook.KeptAt now P) (hdrain : ∀ b, P b → P b.drain.2)
    {r r' : RunState S sel} (hmarket : P (r.market now).2.2.kernel.book)
    {failure : Option RunFailure} (hstep : r.step now = .ok (r', failure)) :
    P r'.kernel.book :=
  step_kernel (P := fun k => P k.book)
    { command := fun c _ => h.execute c, drain := fun hk => hdrain _ hk, install := fun hk => hk }
    hmarket hstep

end Books

/-- The market's part of a step fills the orders that its slice fills, and keeps the others. -/
theorem market_orders (r : RunState S sel) (now : Instant) :
    (r.market now).2.2.kernel.book.orders = r.kernel.book.orders.map fun o =>
      (OrderBook.fill? r.kernel.book.calendar now (r.market now).2.1 o).getD o :=
  OrderBook.matchAll_orders _ _ _ r.kernel.book.nextSeq r.kernel.book.orders

/-- The market's part of a step keeps the terms of the orders. -/
theorem market_terms (r : RunState S sel) (now : Instant) :
    (r.market now).2.2.kernel.book.orders.map Order.terms =
      r.kernel.book.orders.map Order.terms := by
  rw [market_orders, List.map_map]
  refine List.map_congr_left fun o _ => ?_
  show ((OrderBook.fill? r.kernel.book.calendar now (r.market now).2.1 o).getD o).terms = o.terms
  cases hfill : OrderBook.fill? r.kernel.book.calendar now (r.market now).2.1 o with
  | none => rfl
  | some filled => exact (OrderBook.fill?_closes hfill).2.1.terms_eq

/-- The market's part of a step keeps the numbers of the orders. -/
theorem market_ids (r : RunState S sel) (now : Instant) :
    (r.market now).2.2.kernel.book.orders.map Order.id = r.kernel.book.orders.map Order.id := by
  have hterms := congrArg (List.map Prod.fst) (r.market_terms now)
  rw [List.map_map, List.map_map] at hterms
  exact hterms

section Orders

variable {r r' : RunState S sel} {failure : Option RunFailure} {past : List OrderEvent}

/-- After the market's part of a step its book changes only by submissions and cancellations at its
instant. -/
theorem step_placed (hr : r.kernel.book.Consistent past) (h : r.step now = .ok (r', failure)) :
    OrderBook.Placed now (r.market now).2.2.kernel.book r'.kernel.book := by
  let matched := (r.market now).2.2.kernel.book
  have hmatched : ∃ past, matched.Consistent past :=
    ⟨past, (OrderBook.evaluate_edits r.kernel.book now (r.market now).2.1).consistent hr⟩
  -- A drain leaves the orders alone.
  have hdrain : ∀ b : OrderBook, (∃ past, b.Consistent past) ∧ OrderBook.Placed now matched b →
      (∃ past, b.drain.2.Consistent past) ∧ OrderBook.Placed now matched b.drain.2 := by
    rintro b ⟨⟨past, hb⟩, hplaced⟩
    exact ⟨⟨_, hb.drain⟩, hplaced.ids, hplaced.origin⟩
  exact (step_book (OrderBook.placed_keptAt now matched) hdrain
    ⟨hmatched, .refl now matched⟩ h).2

/-- An order after a step is new, submitted at the instant of the step and not filled, or one of the
book before it that has moved. -/
theorem step_origin (hr : r.kernel.book.Consistent past) (h : r.step now = .ok (r', failure))
    {o' : Order} (ho' : o' ∈ r'.kernel.book.orders) :
    (o'.submitted = now ∧ o'.status ≠ .filled ∧ r.kernel.book.get? o'.id = none) ∨
      ∃ o ∈ r.kernel.book.orders,
        o.Moves r.kernel.book.calendar now (r.market now).2.1 o' := by
  rcases (step_placed hr h).origin o' ho' with ⟨hnow, hstatus, hnew⟩ | ⟨m, hm, hcases⟩
  · rw [market_ids] at hnew
    exact .inl ⟨hnow, hstatus, OrderBook.get?_eq_none_iff.2 hnew⟩
  · rw [market_orders] at hm
    obtain ⟨o, ho, hmatch⟩ := List.mem_map.1 hm
    refine .inr ⟨o, ho, ?_⟩
    cases hfill : OrderBook.fill? r.kernel.book.calendar now (r.market now).2.1 o with
    | none =>
        rw [hfill] at hmatch
        obtain rfl : o = m := hmatch
        rcases hcases with rfl | ⟨hopen, rfl⟩
        · exact .keep hfill
        · exact .cancel hfill hopen
    | some filled =>
        rw [hfill] at hmatch
        obtain rfl : filled = m := hmatch
        rcases hcases with rfl | ⟨hopen, -⟩
        · exact .fill _ hfill
        · -- What the slice has filled is not canceled in the same step.
          rw [(OrderBook.fill?_closes hfill).2.2] at hopen
          cases hopen

/-- Every order of the book before a step is in the book after it and has moved. -/
theorem step_moves (hr : r.kernel.book.Consistent past) (h : r.step now = .ok (r', failure))
    {o : Order} (ho : o ∈ r.kernel.book.orders) :
    ∃ o' ∈ r'.kernel.book.orders, o.Moves r.kernel.book.calendar now (r.market now).2.1 o' := by
  have hmem : o.id ∈ r'.kernel.book.orders.map Order.id := by
    refine (step_placed hr h).ids.subset ?_
    rw [market_ids]
    exact List.mem_map_of_mem ho
  obtain ⟨o', ho', hid⟩ := List.mem_map.1 hmem
  -- The order with the number of `o` after the step comes from `o`, as numbers are told apart.
  rcases step_origin hr h ho' with ⟨-, -, hnew⟩ | ⟨other, hother, hmoves⟩
  · rw [hid, hr.get?_eq_some_iff.2 ⟨ho, rfl⟩] at hnew
    cases hnew
  · have hsame : other = o := List.inj_on_of_nodup_map hr.ids_nodup hother ho
      (hmoves.becomes.id_eq.symm.trans hid)
    rw [← hsame]
    exact ⟨o', ho', hmoves⟩

end Orders

end RunState

/-- What holds of the book without orders, and is kept by submissions, cancellations, matching and
drains, holds of the book of a run before each step and at last. -/
theorem Engine.after_book {e : Engine} {S : Strategy} {P : OrderBook → Prop}
    (hstart : P (.start e.settings.calendar e.settings.buyingPower))
    (hkept : ∀ now, OrderBook.KeptAt now P)
    (hmatch : ∀ b now slice, P b → P (b.evaluate now slice).2) (hdrain : ∀ b, P b → P b.drain.2)
    {fuel : Nat} {p : RunProgress S e.selector} (h : e.after S fuel = .ok p) :
    P p.state.kernel.book ∧ ∀ s ∈ e.taken S fuel, P s.before.state.kernel.book := by
  refine after_induction (P := fun past p =>
    P p.state.kernel.book ∧ ∀ s ∈ past, P s.before.state.kernel.book) ?_ ?_ h
  · let start := RunState.start S e.selector e.settings e.prices e.contracts
    have hbook : P start.kernel.book := hstart
    exact ⟨RunState.call_book (hkept _) hbook "initialize" S.onStart,
      fun s hs => absurd hs List.not_mem_nil⟩
  · intro past s hpast _ hstep
    obtain ⟨hbefore, hearlier⟩ := hpast
    refine ⟨RunState.step_book (hkept s.now) hdrain (hmatch _ _ _ hbefore)
      (RunProgress.step_eq hstep).1, fun t ht => ?_⟩
    rcases List.mem_append.1 ht with ht | ht
    · exact hearlier t ht
    · obtain rfl := List.mem_singleton.1 ht
      exact hbefore

end MarketReplay
