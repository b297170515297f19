import MarketReplay.Proofs.Order.Log
import MarketReplay.Run.State

/-!
# The filled orders of a book

Matching replaces every open order that a slice fills. `evaluate_filled_perm` gives the filled
orders of a book after it, `evaluate_booked` the portfolio that its events are booked in. Edits
other than fills leave the filled orders alone (`Edits.filled_eq`).
-/

namespace MarketReplay

/-- The portfolio after the fill of an order is booked. -/
def Portfolio.book (p : Portfolio) (o : Order) : Portfolio :=
  match o.fillPrice with
  | none => p
  | some price => p.apply (.ofSigned o.symbol o.quantity price)

namespace OrderBook

/-- The filled orders. -/
def filled (b : OrderBook) : List Order := b.orders.filter fun o => o.status = .filled

/-- The orders that a slice fills at an instant, as they are then. -/
def fills (b : OrderBook) (now : Instant) (slice : DataSlice) : List Order :=
  b.orders.filterMap (fill? b.calendar now slice)

/-- An edit that is no fill leaves the filled orders alone. -/
theorem Edit.filled_eq {b b' : OrderBook} {s : OrderStatus} (h : Edit b s b')
    (hs : s ≠ .filled) : b'.filled = b.filled := by
  cases h with
  | accept order warnings hid hnew =>
      have hopen : order.status = .submitted := (Order.status_of_opening_eq hnew).1
      simp [filled, queue, hopen]
  | close front back order closed now horders hopen hclose =>
      simp [filled, queue, horders, hopen, hs]

/-- Edits without a fill leave the filled orders alone. -/
theorem Edits.filled_eq {b b' : OrderBook} (h : Edits (· ≠ .filled) b b') :
    b'.filled = b.filled := by
  induction h with
  | refl => rfl
  | tail _ hedit ih =>
      obtain ⟨s, hs, hedit⟩ := hedit
      exact (hedit.filled_eq hs).trans ih

/-- An order that a slice fills has a price there, and is filled at some price. -/
theorem fill?_priced {calendar : Calendar} {now : Instant} {slice : DataSlice}
    {order filled : Order} (h : fill? calendar now slice order = some filled) :
    (slice.price? filled.symbol).isSome ∧ filled.fillPrice.isSome := by
  unfold fill? at h
  split at h
  · split at h
    · exact absurd h (by simp)
    · rename_i quote hquote
      obtain ⟨result, -, rfl⟩ := Option.map_eq_some_iff.1 h
      simp [DataSlice.price?, hquote]
  · exact absurd h (by simp)

/-- The orders that a slice fills have prices. -/
theorem fills_priced {b : OrderBook} {now : Instant} {slice : DataSlice} {o : Order}
    (h : o ∈ b.fills now slice) : (slice.price? o.symbol).isSome ∧ o.fillPrice.isSome := by
  obtain ⟨order, -, hfill⟩ := List.mem_filterMap.1 h
  exact fill?_priced hfill

/-- Matching replaces each order that is filled. -/
theorem matchAll_orders (calendar : Calendar) (now : Instant) (slice : DataSlice) (seq : Nat)
    (orders : List Order) :
    (matchAll calendar now slice seq orders).1 =
      orders.map fun o => (fill? calendar now slice o).getD o := by
  induction orders generalizing seq with
  | nil => rfl
  | cons order rest ih =>
      rw [matchAll, List.map_cons, ← ih seq]
      cases fill? calendar now slice order with
      | none => rfl
      | some filled => exact congrArg (filled :: ·) ((ih (seq + 1)).trans (ih seq).symm)

/-- Booking the events of a matching is booking the filled orders, whatever the events' numbers. -/
theorem matchAll_booked (calendar : Calendar) (now : Instant) (slice : DataSlice) (seq : Nat)
    (orders : List Order) (p : Portfolio) :
    (matchAll calendar now slice seq orders).2.foldl RunState.applyFill p =
      (orders.filterMap (fill? calendar now slice)).foldl Portfolio.book p := by
  induction orders generalizing seq p with
  | nil => rfl
  | cons order rest ih =>
      rw [matchAll]
      cases hfill : fill? calendar now slice order with
      | none =>
          rw [List.filterMap_cons_none hfill]
          exact ih seq p
      | some filled =>
          rw [List.filterMap_cons_some hfill]
          exact ih (seq + 1) (p.book filled)

/-- The filled orders after a matching: those from before, and those that it fills. -/
theorem evaluate_filled_perm (b : OrderBook) (now : Instant) (slice : DataSlice) :
    (b.evaluate now slice).2.filled.Perm (b.filled ++ b.fills now slice) := by
  have horders : (b.evaluate now slice).2.orders =
      b.orders.map fun o => (fill? b.calendar now slice o).getD o :=
    matchAll_orders b.calendar now slice b.nextSeq b.orders
  unfold filled fills
  rw [horders]
  induction b.orders with
  | nil => exact .nil
  | cons order rest ih =>
      cases hfill : fill? b.calendar now slice order with
      | none =>
          rw [List.filterMap_cons_none hfill, List.map_cons, hfill, Option.getD_none]
          by_cases hfilled : order.status = .filled
          · simpa [hfilled] using ih
          · simpa [hfilled] using ih
      | some filled =>
          obtain ⟨hopen, -, hstatus⟩ := fill?_closes hfill
          rw [List.filterMap_cons_some hfill, List.map_cons, hfill, Option.getD_some]
          -- The order was open, so it is new among the filled orders; it is the first of the fills.
          have hmiddle := (ih.cons filled).trans List.perm_middle.symm
          simpa [hopen, hstatus] using hmiddle

/-- The portfolio after a matching is that with the filled orders booked. -/
theorem evaluate_booked (b : OrderBook) (now : Instant) (slice : DataSlice) (p : Portfolio) :
    (b.evaluate now slice).1.foldl RunState.applyFill p =
      (b.fills now slice).foldl Portfolio.book p :=
  matchAll_booked b.calendar now slice b.nextSeq b.orders p

end OrderBook

end MarketReplay
