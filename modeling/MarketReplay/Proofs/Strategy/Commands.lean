import MarketReplay.Proofs.Order.Log
import MarketReplay.Strategy

/-!
# What commands do to a kernel

A command accepts and cancels orders and changes subscriptions; it fills no order and moves no
cash. `Kernel.Commanded` says so of two kernels, and `Program.run_commanded` gives it for every
program. The tracked universe is changed by subscriptions alone (`Command.execute_tracked`), the
book by submissions and cancellations alone (`OrderBook.KeptAt.run`).
-/

namespace MarketReplay

variable {κ : Type}

/-- A kernel and what commands make of it: orders are accepted and canceled, none is filled, and
the portfolio stays. -/
structure Kernel.Commanded (k k' : Kernel κ) : Prop where
  portfolio_eq : k'.portfolio = k.portfolio
  calendar_eq : k'.calendar = k.calendar
  contracts_eq : k'.contracts = k.contracts
  edits : OrderBook.Edits (· ≠ .filled) k.book k'.book

namespace Kernel

variable {past : List OrderEvent}

/-- A kernel with the same portfolio, calendar, contracts and book was commanded. -/
theorem Commanded.of_eq {k k' : Kernel κ} (hportfolio : k'.portfolio = k.portfolio)
    (hcalendar : k'.calendar = k.calendar) (hcontracts : k'.contracts = k.contracts)
    (hbook : k'.book = k.book) : Commanded k k' := by
  refine ⟨hportfolio, hcalendar, hcontracts, ?_⟩
  rw [hbook]
  exact .refl k.book

theorem Commanded.refl (k : Kernel κ) : Commanded k k := .of_eq rfl rfl rfl rfl

theorem Commanded.trans {k k' k'' : Kernel κ} (h : Commanded k k') (h' : Commanded k' k'') :
    Commanded k k'' :=
  ⟨h'.portfolio_eq.trans h.portfolio_eq, h'.calendar_eq.trans h.calendar_eq,
    h'.contracts_eq.trans h.contracts_eq, h.edits.trans h'.edits⟩

/-- Commands keep a book consistent. -/
theorem Commanded.consistent {k k' : Kernel κ} (h : Commanded k k')
    (hk : k.book.Consistent past) : k'.book.Consistent past :=
  h.edits.consistent hk

/-- A request accepts one order or changes nothing. -/
theorem submit_commanded (k : Kernel κ) (now : Instant) (request : OrderRequest) :
    Commanded k (k.submit now request).2 := by
  unfold submit
  split
  · exact .refl k
  · rename_i order book hsubmit
    exact ⟨rfl, rfl, rfl, (OrderBook.submit_edit hsubmit).1.edits _ (by decide)⟩

/-- Closing positions submits orders in turn. -/
theorem closeAll_commanded (now : Instant) (positions : List (Symbol × Int)) (k : Kernel κ) :
    Commanded k (closeAll now positions k).2 := by
  induction positions generalizing k with
  | nil => exact .refl k
  | cons position rest ih =>
      obtain ⟨symbol, quantity⟩ := position
      rw [closeAll]
      split
      · exact ih k
      · have hsubmit := k.submit_commanded now ⟨symbol, wrap64 (-quantity), .market, none⟩
        split
        · rename_i hrefused
          rwa [hrefused] at hsubmit
        · rename_i haccepted
          rw [haccepted] at hsubmit
          exact hsubmit.trans (ih _)

/-- Cancellations in turn act on the book alone. -/
theorem cancelAll_commanded {k : Kernel κ} (hk : k.book.Consistent past) (now : Instant)
    (ids : List Nat) : Commanded k { k with book := (OrderBook.cancelAll now ids k.book).2 } :=
  ⟨rfl, rfl, rfl, (OrderBook.cancelAll_edits ids hk).mono (by rintro s rfl; decide)⟩

/-- A subscription leaves orders and portfolio alone. -/
theorem subscribe_commanded (k : Kernel κ) (result : Except UniverseError Universe) :
    Commanded k (k.subscribe result).2 := by
  cases result with
  | error e => exact .refl k
  | ok tracked => exact .of_eq rfl rfl rfl rfl

/-- Subscribing a listed contract is a subscription or nothing. -/
theorem addDerivedContract_commanded (k : Kernel κ) (now : Instant) (underlying : Symbol)
    (expiry : Date) (right : OptionRight) (style : OptionStyle) :
    Commanded k (k.addDerivedContract now underlying expiry right style).2 := by
  unfold addDerivedContract
  split
  · exact .refl k
  · rename_i contract _
    have hsubscribe := k.subscribe_commanded (k.tracked.addContract contract)
    split <;> rename_i hresult <;> rwa [hresult] at hsubscribe

/-- A liquidation cancels orders, then submits the closing ones. -/
theorem liquidate_commanded {k : Kernel κ} (hk : k.book.Consistent past) (now : Instant)
    (target : Option Symbol) : Commanded k (k.liquidate now target).2 :=
  (cancelAll_commanded hk now (k.openIds target)).trans (closeAll_commanded now _ _)

/-- Removing an instrument cancels its open orders or changes nothing. -/
theorem removeInstrument_commanded {k : Kernel κ} (hk : k.book.Consistent past) (now : Instant)
    (symbol : Symbol) : Commanded k (k.removeInstrument now symbol).2 := by
  unfold removeInstrument
  split
  · exact .refl k
  · rename_i tracked _
    have hcancel := cancelAll_commanded hk now
      ((k.book.openOrders.filter fun o => o.symbol = symbol).map Order.id)
    exact hcancel.trans (.of_eq rfl rfl rfl rfl)

end Kernel

/-- Every command only commands a kernel. -/
theorem Command.execute_commanded {k : Kernel κ} {past : List OrderEvent}
    (hk : k.book.Consistent past) (now : Instant) (c : Command κ) :
    Kernel.Commanded k (c.execute now k).2 := by
  cases c with
  | submit request => exact k.submit_commanded now request
  | cancel id =>
      simp only [Command.execute]
      split
      · exact .refl k
      · rename_i event book hcancel
        exact ⟨rfl, rfl, rfl, (OrderBook.cancel_edit hk.ids_nodup hcancel).edits _ (by decide)⟩
  | liquidate target => exact Kernel.liquidate_commanded hk now target
  | addInstrument symbol => exact k.subscribe_commanded _
  | addContract contract => exact k.subscribe_commanded _
  | addDerivedContract underlying expiry right style =>
      exact k.addDerivedContract_commanded now underlying expiry right style
  | removeInstrument symbol => exact Kernel.removeInstrument_commanded hk now symbol
  | schedule rule action => exact .of_eq rfl rfl rfl rfl
  | optionChain | clock | security | securities | portfolio | order | openOrders =>
      exact .refl k

/-- Every program only commands a kernel. -/
theorem Program.run_commanded {α : Type} {past : List OrderEvent} (now : Instant)
    (p : Program κ α) {k : Kernel κ} (hk : k.book.Consistent past) :
    Kernel.Commanded k (p.run now k).2 := by
  induction p generalizing k with
  | done a => exact .refl k
  | perform c resume ih =>
      have hcommand := c.execute_commanded hk now
      exact hcommand.trans (ih _ (hcommand.consistent hk))

/-! ### Subscriptions -/

/-- A universe and what one command of a subscription makes of it. -/
def Universe.Subscribed (u u' : Universe) : Prop :=
  ∃ symbol, u.addInstrument symbol = .ok u' ∨ u.addContract symbol = .ok u' ∨
    u.removeInstrument symbol = .ok u'

/-- Closing positions keeps what every submission keeps. -/
theorem Kernel.closeAll_keeps {α : Type} {f : Kernel κ → α} {now : Instant}
    (hsubmit : ∀ (k : Kernel κ) request, f (k.submit now request).2 = f k)
    (positions : List (Symbol × Int)) (k : Kernel κ) :
    f (closeAll now positions k).2 = f k := by
  induction positions generalizing k with
  | nil => rfl
  | cons position rest ih =>
      obtain ⟨symbol, quantity⟩ := position
      rw [closeAll]
      split
      · exact ih k
      · have hk := hsubmit k ⟨symbol, wrap64 (-quantity), .market, none⟩
        split <;> rename_i hresult <;> rw [hresult] at hk
        · exact hk
        · exact (ih _).trans hk

/-- A submission leaves the tracked universe alone. -/
theorem Kernel.submit_tracked (now : Instant) (k : Kernel κ) (request : OrderRequest) :
    (k.submit now request).2.tracked = k.tracked := by
  unfold submit
  split <;> rfl

/-- What a subscription command makes of the tracked universe, if it is not refused. -/
theorem Kernel.subscribe_tracked (k : Kernel κ) (result : Except UniverseError Universe) :
    (k.subscribe result).2.tracked = k.tracked ∨ result = .ok (k.subscribe result).2.tracked := by
  cases result with
  | error e => exact .inl rfl
  | ok tracked => exact .inr rfl

/-- A command subscribes or removes one symbol, or leaves the tracked universe alone. -/
theorem Command.execute_tracked (now : Instant) (c : Command κ) (k : Kernel κ) :
    (c.execute now k).2.tracked = k.tracked ∨
      k.tracked.Subscribed (c.execute now k).2.tracked := by
  cases c with
  | submit request => exact .inl (k.submit_tracked now request)
  | cancel id =>
      refine .inl ?_
      simp only [Command.execute]
      split <;> rfl
  | liquidate target => exact .inl (Kernel.closeAll_keeps (Kernel.submit_tracked now) _ _)
  | addInstrument symbol =>
      exact (k.subscribe_tracked (k.tracked.addInstrument symbol)).imp_right
        fun hadd => ⟨symbol, .inl hadd⟩
  | addContract contract =>
      exact (k.subscribe_tracked (k.tracked.addContract contract)).imp_right
        fun hadd => ⟨contract, .inr (.inl hadd)⟩
  | addDerivedContract underlying expiry right style =>
      show (k.addDerivedContract now underlying expiry right style).2.tracked = k.tracked ∨
        k.tracked.Subscribed (k.addDerivedContract now underlying expiry right style).2.tracked
      unfold Kernel.addDerivedContract
      split
      · exact .inl rfl
      · rename_i contract _
        have hsubscribe := k.subscribe_tracked (k.tracked.addContract contract)
        split <;> rename_i hresult <;> rw [hresult] at hsubscribe
        · exact hsubscribe.imp_right fun hadd => ⟨contract, .inr (.inl hadd)⟩
        · exact hsubscribe.imp_right fun hadd => ⟨contract, .inr (.inl hadd)⟩
  | removeInstrument symbol =>
      show (k.removeInstrument now symbol).2.tracked = k.tracked ∨
        k.tracked.Subscribed (k.removeInstrument now symbol).2.tracked
      unfold Kernel.removeInstrument
      split
      · exact .inl rfl
      · rename_i tracked hremove
        exact .inr ⟨symbol, .inr (.inr hremove)⟩
  | optionChain | schedule | clock | security | securities | portfolio | order | openOrders =>
      exact .inl rfl

/-! ### Books -/

/-- Whether submissions and cancellations at an instant keep a property of books. -/
structure OrderBook.KeptAt (now : Instant) (P : OrderBook → Prop) : Prop where
  submit : ∀ {b b' : OrderBook} {request : OrderRequest} {tracked : Universe} {cash : Int}
    {order : Order}, P b → b.submit request tracked cash now = .ok (order, b') → P b'
  cancel : ∀ {b b' : OrderBook} {id : Nat} {e : OrderEvent}, P b →
    b.cancel id now = .ok (e, b') → P b'

namespace OrderBook.KeptAt

variable {now : Instant} {P : OrderBook → Prop}

/-- A request submits one order or changes nothing. -/
theorem kernel_submit (h : KeptAt now P) {k : Kernel κ} (hk : P k.book)
    (request : OrderRequest) : P (k.submit now request).2.book := by
  unfold Kernel.submit
  split
  · exact hk
  · rename_i hsubmit
    exact h.submit hk hsubmit

/-- Closing positions submits orders in turn. -/
theorem closeAll (h : KeptAt now P) (positions : List (Symbol × Int)) {k : Kernel κ}
    (hk : P k.book) : P (Kernel.closeAll now positions k).2.book := by
  induction positions generalizing k with
  | nil => exact hk
  | cons position rest ih =>
      obtain ⟨symbol, quantity⟩ := position
      rw [Kernel.closeAll]
      split
      · exact ih hk
      · have hsubmit := h.kernel_submit hk ⟨symbol, wrap64 (-quantity), .market, none⟩
        split <;> rename_i hresult <;> rw [hresult] at hsubmit
        · exact hsubmit
        · exact ih hsubmit

/-- Cancellations in turn. -/
theorem cancelAll (h : KeptAt now P) (ids : List Nat) {b : OrderBook} (hb : P b) :
    P (OrderBook.cancelAll now ids b).2 := by
  induction ids generalizing b with
  | nil => exact hb
  | cons id rest ih =>
      rw [OrderBook.cancelAll]
      split
      · exact ih hb
      · rename_i hcancel
        exact ih (h.cancel hb hcancel)

/-- A subscription leaves the book alone. -/
theorem subscribe {k : Kernel κ} (hk : P k.book) (result : Except UniverseError Universe) :
    P (k.subscribe result).2.book := by
  cases result with
  | error e => exact hk
  | ok tracked => exact hk

/-- Every command submits and cancels in turn, or leaves the book alone. -/
theorem execute (h : KeptAt now P) (c : Command κ) {k : Kernel κ} (hk : P k.book) :
    P (c.execute now k).2.book := by
  cases c with
  | submit request => exact h.kernel_submit hk request
  | cancel id =>
      simp only [Command.execute]
      split
      · exact hk
      · rename_i hcancel
        exact h.cancel hk hcancel
  | liquidate target =>
      have hcanceled : P ({ k with book := (OrderBook.cancelAll now (k.openIds target) k.book).2 } :
        Kernel κ).book := h.cancelAll (k.openIds target) hk
      exact h.closeAll (k.targets target) hcanceled
  | addInstrument symbol => exact subscribe hk _
  | addContract contract => exact subscribe hk _
  | addDerivedContract underlying expiry right style =>
      show P (k.addDerivedContract now underlying expiry right style).2.book
      unfold Kernel.addDerivedContract
      split
      · exact hk
      · rename_i contract _
        have hsubscribe : P (k.subscribe (k.tracked.addContract contract)).2.book := subscribe hk _
        split <;> rename_i hresult <;> rw [hresult] at hsubscribe
        · exact hsubscribe
        · exact hsubscribe
  | removeInstrument symbol =>
      show P (k.removeInstrument now symbol).2.book
      unfold Kernel.removeInstrument
      split
      · exact hk
      · exact h.cancelAll _ hk
  | optionChain | schedule | clock | security | securities | portfolio | order | openOrders =>
      exact hk

/-- Every program submits and cancels in turn. -/
theorem run {α : Type} (h : KeptAt now P) (p : Program κ α) {k : Kernel κ} (hk : P k.book) :
    P (p.run now k).2.book := by
  induction p generalizing k with
  | done a => exact hk
  | perform c resume ih => exact ih _ (h.execute c hk)

end OrderBook.KeptAt

end MarketReplay
