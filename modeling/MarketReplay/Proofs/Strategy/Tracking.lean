import MarketReplay.Proofs.Order.Cancellations
import MarketReplay.Proofs.Strategy.Commands
import MarketReplay.Proofs.Universe.Records

/-!
# Open orders and records

The universe drops records and the book owns orders, neither knowing the other. A kernel is guarded
if every open order has a record for its symbol (`Kernel.Guarded`); every command keeps it
(`Command.execute_guarded`), because the one that drops a record, a removal, cancels the open orders
on its symbol with it (`Kernel.removeInstrument_cases`).
-/

namespace MarketReplay

variable {κ : Type} {now : Instant}

/-- An accepted request is for a tracked symbol. -/
theorem OrderBook.contains_of_check {b : OrderBook} {request : OrderRequest} {tracked : Universe}
    {cash : Int} {warnings : List String}
    (h : b.check request tracked cash now = .ok warnings) : tracked.contains request.symbol := by
  unfold check at h
  split at h
  · cases h
  · rename_i security hget
    exact Option.isSome_iff_exists.2 ⟨security, hget⟩

namespace Kernel

/-- Whether every open order is on a tracked symbol. -/
def OpenTracked (k : Kernel κ) : Prop :=
  ∀ o ∈ k.book.orders, o.status = .submitted → k.tracked.contains o.symbol

/-- Whether every open order is on a tracked symbol, in a book that its events agree with. -/
structure Guarded (k : Kernel κ) : Prop where
  consistent : ∃ past, k.book.Consistent past
  tracked : k.OpenTracked

variable {k k' : Kernel κ}

/-- Open orders stay on tracked symbols where none is new and no record is dropped. -/
theorem OpenTracked.of_kept (h : k.OpenTracked)
    (hopen : ∀ o ∈ k'.book.orders, o.status = .submitted → o ∈ k.book.orders)
    (hrecords : ∀ s, k.tracked.contains s → k'.tracked.contains s) : k'.OpenTracked :=
  fun o ho hstatus => hrecords _ (h o (hopen o ho hstatus) hstatus)

/-- An accepted order is on a tracked symbol. -/
theorem OpenTracked.submit (h : k.OpenTracked) (now : Instant) (request : OrderRequest) :
    (k.submit now request).2.OpenTracked := by
  unfold Kernel.submit
  split
  · exact h
  · rename_i order book hsubmit
    obtain ⟨warnings, hcheck, rfl, rfl⟩ := OrderBook.submit_eq_ok hsubmit
    intro o ho hstatus
    rcases List.mem_append.1 ho with ho | ho
    · exact h o ho hstatus
    · obtain rfl := List.mem_singleton.1 ho
      exact OrderBook.contains_of_check hcheck

/-- Closing positions submits orders in turn. -/
theorem OpenTracked.closeAll (now : Instant) (positions : List (Symbol × Int)) {k : Kernel κ}
    (h : k.OpenTracked) : (Kernel.closeAll now positions k).2.OpenTracked := by
  induction positions generalizing k with
  | nil => exact h
  | cons position rest ih =>
      obtain ⟨symbol, quantity⟩ := position
      rw [Kernel.closeAll]
      split
      · exact ih h
      · have hsubmit := h.submit now ⟨symbol, wrap64 (-quantity), .market, none⟩
        split <;> rename_i hresult <;> rw [hresult] at hsubmit
        · exact hsubmit
        · exact ih hsubmit

/-- Cancellations leave no order open that was not. -/
theorem OpenTracked.withdraw (h : k.OpenTracked) {book : OrderBook} {ids : List Nat}
    (horders : book.orders = k.book.orders.map (Order.withdrawn ids)) :
    ({ k with book } : Kernel κ).OpenTracked := by
  refine h.of_kept (fun o ho hstatus => ?_) fun s hs => hs
  obtain ⟨order, horder, rfl⟩ := List.mem_map.1 (horders ▸ ho)
  rwa [Order.withdrawn_eq_of_open hstatus]

/-- A subscription that drops no record keeps open orders on tracked symbols. -/
theorem OpenTracked.subscribe (h : k.OpenTracked) {result : Except UniverseError Universe}
    (hrecords : ∀ tracked, result = .ok tracked →
      ∀ s, k.tracked.contains s → tracked.contains s) : (k.subscribe result).2.OpenTracked := by
  cases result with
  | error e => exact h
  | ok tracked => exact h.of_kept (fun o ho _ => ho) (hrecords tracked rfl)

/-- What a removal makes of a kernel: none of its open orders is on the symbol any more, and its
orders on other symbols are as they were. -/
structure Removed (symbol : Symbol) (k k' : Kernel κ) : Prop where
  closed : ∀ o ∈ k'.book.orders, o.symbol = symbol → o.status ≠ .submitted
  others : (k'.book.orders.filter fun o => o.symbol ≠ symbol) =
    k.book.orders.filter fun o => o.symbol ≠ symbol

/-- A removal that is refused changes nothing. -/
theorem eq_of_removeInstrument {symbol : Symbol} {e : UniverseError}
    (h : k.removeInstrument now symbol = (.error e, k')) : k' = k := by
  unfold removeInstrument at h
  split at h
  · exact (Prod.mk.inj h).2.symm
  · cases h

/-- A removal that is not refused cancels the open orders on the symbol and leaves the others. -/
theorem removed_of_removeInstrument (hk : k.Guarded) {symbol : Symbol} {events : List OrderEvent}
    (h : k.removeInstrument now symbol = (.ok events, k')) :
    Removed symbol k k' ∧ k'.OpenTracked := by
  obtain ⟨past, hconsistent⟩ := hk.consistent
  unfold removeInstrument at h
  split at h
  · cases h
  · rename_i tracked hremove
    obtain ⟨-, rfl⟩ := Prod.mk.inj h
    have hnodup := hconsistent.ids_nodup
    have hopen : ∀ o ∈ (k.book.cancelOpenFor symbol now).2.orders, o.status = .submitted →
        o ∈ k.book.orders ∧ o.symbol ≠ symbol :=
      fun o ho hstatus => OrderBook.mem_of_cancelOpenFor hnodup ho hstatus
    constructor
    · exact ⟨fun o ho hsymbol hstatus => (hopen o ho hstatus).2 hsymbol,
        OrderBook.filter_cancelOpenFor hnodup symbol⟩
    · intro o ho hstatus
      obtain ⟨hmem, hne⟩ := hopen o ho hstatus
      exact Universe.contains_removeInstrument hremove hne (hk.tracked o hmem hstatus)

end Kernel

/-- Every command keeps a kernel guarded. -/
theorem Command.execute_guarded {k : Kernel κ} (h : k.Guarded) (now : Instant) (c : Command κ) :
    (c.execute now k).2.Guarded := by
  obtain ⟨past, hconsistent⟩ := h.consistent
  refine ⟨⟨past, (c.execute_commanded hconsistent now).consistent hconsistent⟩, ?_⟩
  cases c with
  | submit request => exact h.tracked.submit now request
  | cancel id =>
      simp only [Command.execute]
      split
      · exact h.tracked
      · rename_i event book hcancel
        exact h.tracked.withdraw (OrderBook.orders_of_cancel hconsistent.ids_nodup hcancel)
  | liquidate target =>
      have hcanceled := h.tracked.withdraw
        (OrderBook.cancelAll_orders now (k.openIds target) hconsistent.ids_nodup)
      exact hcanceled.closeAll now (k.targets target)
  | addInstrument symbol =>
      exact h.tracked.subscribe fun tracked hadd s hs => Universe.contains_addInstrument hadd hs
  | addContract contract =>
      exact h.tracked.subscribe fun tracked hadd s hs => Universe.contains_addContract hadd hs
  | addDerivedContract underlying expiry right style =>
      show (k.addDerivedContract now underlying expiry right style).2.OpenTracked
      unfold Kernel.addDerivedContract
      split
      · exact h.tracked
      · rename_i contract _
        have hsubscribe : (k.subscribe (k.tracked.addContract contract)).2.OpenTracked :=
          h.tracked.subscribe fun tracked hadd s hs => Universe.contains_addContract hadd hs
        split <;> rename_i hresult <;> rw [hresult] at hsubscribe
        · exact hsubscribe
        · exact hsubscribe
  | removeInstrument symbol =>
      show (k.removeInstrument now symbol).2.OpenTracked
      cases hremove : k.removeInstrument now symbol with
      | mk result k' =>
          cases result with
          | error e =>
              rw [Kernel.eq_of_removeInstrument hremove]
              exact h.tracked
          | ok events => exact (Kernel.removed_of_removeInstrument h hremove).2
  | schedule rule action => exact h.tracked
  | optionChain | clock | security | securities | portfolio | order | openOrders =>
      exact h.tracked

end MarketReplay
