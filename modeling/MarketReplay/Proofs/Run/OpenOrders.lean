import MarketReplay.Proofs.Run.OrderSteps
import MarketReplay.Proofs.Strategy.Tracking

/-!
# Open orders of a run

Every open order of a run is on a tracked symbol, before and after each command and after each step
(`Engine.open_orders_tracked`). Commands keep this by the lemmas of `Strategy.Tracking`; the market's
part of a step only closes orders and makes records.
-/

namespace MarketReplay

/-- Commands, drains and installations keep a kernel guarded. -/
theorem Kernel.guarded_keptAt {κ : Type} (now : Instant) :
    Kernel.KeptAt now (Kernel.Guarded : Kernel κ → Prop) where
  command := fun c _ h => c.execute_guarded h now
  drain := by
    rintro k ⟨⟨past, hconsistent⟩, htracked⟩
    exact ⟨⟨_, hconsistent.drain⟩, htracked⟩
  install := fun h => ⟨h.consistent, h.tracked⟩

/-- The market's part of a step keeps a kernel guarded: what it leaves open was open before, and no
record is dropped. -/
theorem RunState.market_guarded {S : Strategy} {sel : Selector} {r : RunState S sel}
    (h : r.kernel.Guarded) (now : Instant) : (r.market now).2.2.kernel.Guarded := by
  obtain ⟨past, hconsistent⟩ := h.consistent
  refine ⟨⟨past, (OrderBook.evaluate_edits r.kernel.book now (r.market now).2.1).consistent
    hconsistent⟩, h.tracked.of_kept (fun o ho hopen => ?_) fun s hs => ?_⟩
  · rw [market_orders] at ho
    obtain ⟨order, horder, rfl⟩ := List.mem_map.1 ho
    cases hfill : OrderBook.fill? r.kernel.book.calendar now (r.market now).2.1 order with
    | none => exact horder
    | some filled =>
        rw [hfill, Option.getD_some, (OrderBook.fill?_closes hfill).2.2] at hopen
        cases hopen
  · show ((r.kernel.tracked.resolve now sel r.selector).2.1.updatePrices _).contains s
    rw [Universe.contains_updatePrices, Universe.contains_resolve, hs, Bool.or_true]

namespace Engine

/-- Every open order of a run is on a tracked symbol, wherever the run is between two commands or
behind a step. A removal that is not refused cancels the open orders on its symbol and leaves the
others; one that is refused changes nothing. -/
theorem open_orders_tracked {e : Engine} {S : Strategy} {k : Kernel S.Code} (h : e.Visits S k) :
    k.OpenTracked ∧ ∀ (now : Instant) (symbol : Symbol),
      (∀ refusal k', k.removeInstrument now symbol = (.error refusal, k') → k' = k) ∧
      ∀ events k', k.removeInstrument now symbol = (.ok events, k') →
        Kernel.Removed symbol k k' := by
  have hguarded : k.Guarded := by
    refine h.induction ⟨⟨[], OrderBook.consistent_start _ _⟩, ?_⟩ Kernel.guarded_keptAt
      fun r now hr => RunState.market_guarded hr now
    exact fun o ho => absurd ho List.not_mem_nil
  refine ⟨hguarded.tracked, fun now symbol => ⟨fun _ _ => Kernel.eq_of_removeInstrument, ?_⟩⟩
  exact fun _ _ hremove => (Kernel.removed_of_removeInstrument hguarded hremove).1

/-- The strategy that subscribes two symbols, sells a share of each and gives the first one up, all
when it is initialized. -/
def quitter (first second : Symbol) : Strategy where
  State := Unit
  Code := Empty
  spec := ⟨"quitter", none⟩
  initial := ()
  onStart state :=
    .perform (.addInstrument first) fun _ => .perform (.addInstrument second) fun _ =>
      .perform (.sell first 1) fun _ => .perform (.sell second 1) fun _ =>
        .perform (.removeInstrument first) fun _ => Strategy.idle state
  onSecuritiesChanged state _ := Strategy.idle state
  onData state _ := Strategy.idle state
  onOrderEvent state _ := Strategy.idle state
  onScheduled state _ := Strategy.idle state
  onCallback state _ := Strategy.idle state

/-- Where it gives the first symbol up it has an open order on each, both tracked. The removal drops
the record of the first symbol and cancels the order on it; the other order stays open. -/
theorem quitter_withdraws :
    let first := Symbol.equity "SPY"
    let second := Symbol.equity "QQQ"
    let S := quitter first second
    let e := sample S first []
    let now : Instant := .startOf e.settings.start e.settings.resolution
    ∃ k events k', e.Visits S k ∧ k.OpenTracked ∧
      k.book.orders.map Order.status = [.submitted, .submitted] ∧
      k.removeInstrument now first = (.ok events, k') ∧ Kernel.Removed first k k' ∧
      k'.book.orders.map Order.status = [.canceled, .submitted] ∧
      k'.tracked.contains first = false := by
  intro first second S e now
  have hbegin : e.after S 0 = .ok (e.begin S) := rfl
  let start := (RunState.start S e.selector e.settings e.prices e.contracts).kernel
  let added := ((Command.addInstrument second).execute now
    ((Command.addInstrument first).execute now start).2).2
  let k := ((Command.sell second 1).execute now
    ((Command.sell first 1).execute now added).2).2
  have hvisits : e.Visits S k :=
    .before (.start hbegin (.later (.later (.later (.later (.first _ _ _))))))
  obtain ⟨htracked, hremove⟩ := open_orders_tracked hvisits
  have hanswer : k.removeInstrument now first =
      (.ok (k.book.cancelOpenFor first now).1, (k.removeInstrument now first).2) := rfl
  exact ⟨k, _, _, hvisits, htracked, by decide +kernel, hanswer,
    (hremove now first).2 _ _ hanswer, by decide +kernel, by decide +kernel⟩

end Engine

end MarketReplay
