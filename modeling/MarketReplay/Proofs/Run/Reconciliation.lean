import MarketReplay.Proofs.Portfolio.Booking
import MarketReplay.Proofs.Run.EventLog

/-!
# Money agrees with orders

Cash, holdings and marks of a run are stored apart from its orders. As long as no amount saturates
or overflows (`StepTaken.isExact`), they are functions of the filled orders and of the slices
(`RunState.Balanced`) after every step, and so are the samples and the result
(`Engine.after_balanced`).
-/

namespace MarketReplay

/-- What is settled once the market has had its part of a step: callbacks change neither portfolio
nor marks, and fill no order. -/
structure RunState.Settled {S : Strategy} {sel : Selector} (r r' : RunState S sel) : Prop where
  portfolio_eq : r'.kernel.portfolio = r.kernel.portfolio
  filled_eq : r'.kernel.book.filled = r.kernel.book.filled
  marks_eq : r'.marks = r.marks

namespace StepTaken

variable {S : Strategy} {sel : Selector}

/-- The slice of a step. -/
def slice (s : StepTaken S sel) : DataSlice := (s.before.state.market s.now).2.1

/-- Whether a step samples the portfolio: it is the last one of its date and does not fail. -/
def samples (s : StepTaken S sel) : Bool :=
  s.after.failure.isNone && RunProgress.dayEnds s.clock s.now.date

/-- Whether no amount of cash and no quantity saturates or overflows in a step: its fills are
booked exactly, and so is the sample taken, if there is one. -/
def isExact (s : StepTaken S sel) : Bool :=
  s.before.state.kernel.portfolio.booksFit (s.before.state.kernel.book.fills s.now s.slice) &&
    (!s.samples || s.after.state.kernel.portfolio.equityFits s.after.state.marks.get?)

/-- The mark of a symbol after steps: its price in the latest slice that contains it. -/
def mark (past : List (StepTaken S sel)) (symbol : Symbol) : Option Int :=
  (past.filterMap fun s => s.slice.price? symbol).getLast?

/-- A step's slice gives the mark of the symbols that it contains. -/
theorem mark_snoc (past : List (StepTaken S sel)) (s : StepTaken S sel) (symbol : Symbol) :
    mark (past ++ [s]) symbol = (s.slice.price? symbol).or (mark past symbol) := by
  unfold mark
  rw [List.filterMap_append, List.getLast?_append]
  cases hprice : s.slice.price? symbol <;> simp [hprice]

end StepTaken

namespace RunState

variable {S : Strategy} {sel : Selector}

theorem Settled.trans {r r' r'' : RunState S sel} (h : Settled r r') (h' : Settled r' r'') :
    Settled r r'' :=
  ⟨h'.portfolio_eq.trans h.portfolio_eq, h'.filled_eq.trans h.filled_eq,
    h'.marks_eq.trans h.marks_eq⟩

/-- Callbacks leave alone what is settled. -/
theorem Called.settled {r r' : RunState S sel} (h : Called r r') : Settled r r' :=
  ⟨h.kernel.portfolio_eq, h.kernel.edits.filled_eq, h.marks_eq⟩

/-- Installing schedules leaves alone what is settled. -/
theorem Settled.install {r r' : RunState S sel} (h : Settled r r') : Settled r r'.install :=
  ⟨h.portfolio_eq, h.filled_eq, h.marks_eq⟩

/-- A dispatch leaves alone what is settled. -/
theorem dispatch_settled {r r' : RunState S sel} {now : Instant} {failure : Option RunFailure}
    (hr : r.kernel.book.Consistent r.delivered) (h : r.dispatch now = .ok (r', failure)) :
    Settled r r' := by
  obtain ⟨due, scheduler, -, hresult⟩ := dispatch_eq h
  have hdrained : Settled r (r.drained scheduler) := ⟨rfl, rfl, rfl⟩
  have hcalled := deliverAll_called now (interleave r.kernel.book.drain.1 due)
    (drained_consistent hr scheduler)
  rw [hresult] at hcalled
  exact hdrained.trans hcalled.settled

/-- The rest of a step leaves alone what the market's part has settled. -/
theorem step_settled {r r' : RunState S sel} {now : Instant} {failure : Option RunFailure}
    (hr : r.kernel.book.Consistent r.delivered) (h : r.step now = .ok (r', failure)) :
    Settled (r.market now).2.2 r' := by
  have hmarket := market_consistent hr now
  have hnotify := notify_called hmarket now (r.market now).1 (r.market now).2.1
  obtain ⟨q, f, hfailed, -, rfl⟩ | ⟨q, q', hdone, hdispatch, rfl⟩ := step_cases h
  · rw [hfailed] at hnotify
    exact hnotify.settled.install
  · rw [hdone] at hnotify
    have hdispatched := dispatch_settled (notify_consistent hmarket hdone) hdispatch
    exact (hnotify.settled.trans hdispatched).install

/-! ### The market's part of a step -/

/-- The market's part of a step books the orders that its slice fills. -/
theorem market_portfolio (r : RunState S sel) (now : Instant) :
    (r.market now).2.2.kernel.portfolio =
      (r.kernel.book.fills now (r.market now).2.1).foldl Portfolio.book r.kernel.portfolio :=
  r.kernel.book.evaluate_booked now _ _

/-- The market's part of a step adds the orders that its slice fills to the filled ones. -/
theorem market_filled (r : RunState S sel) (now : Instant) :
    (r.market now).2.2.kernel.book.filled.Perm
      (r.kernel.book.filled ++ r.kernel.book.fills now (r.market now).2.1) :=
  r.kernel.book.evaluate_filled_perm now _

/-- The market's part of a step marks the symbols of its slice. -/
theorem market_marks (r : RunState S sel) (now : Instant) (symbol : Symbol) :
    (r.market now).2.2.marks.get? symbol =
      ((r.market now).2.1.price? symbol).or (r.marks.get? symbol) := by
  let prices := (r.market now).2.1.quotes.mapValues fun _ quote => quote.price
  have hmarks : (r.market now).2.2.marks = r.marks.insertAll prices.entries := rfl
  have hprices : SortedMap.find symbol prices.entries = (r.market now).2.1.price? symbol :=
    SortedMap.get?_mapValues (r.market now).2.1.quotes _ symbol
  rw [hmarks, SortedMap.get?_insertAll _ _ prices.sorted, hprices]

/-! ### Runs -/

/-- The money of a state after steps agrees with its filled orders, of which each has a price and a
mark, and so has every symbol held; the marks are those of the steps' slices. -/
structure Balanced (initial : Int) (past : List (StepTaken S sel)) (r : RunState S sel) : Prop where
  money : Reconciled initial r.kernel.book.filled r.kernel.portfolio
  marks_eq : ∀ symbol, r.marks.get? symbol = StepTaken.mark past symbol
  priced : ∀ o ∈ r.kernel.book.filled, o.fillPrice.isSome
  marked : ∀ o ∈ r.kernel.book.filled, (StepTaken.mark past o.symbol).isSome
  held_marked : ∀ symbol, r.kernel.portfolio.holdings.contains symbol →
    (StepTaken.mark past symbol).isSome

/-- An exact step keeps the money in agreement with the orders. -/
theorem Balanced.step {initial : Int} {past : List (StepTaken S sel)} {s : StepTaken S sel}
    (h : Balanced initial past s.before.state)
    (hbook : s.before.state.kernel.book.Consistent s.before.state.delivered)
    (hstep : s.before.step s.clock s.now = .ok s.after) (hexact : s.isExact) :
    Balanced initial (past ++ [s]) s.after.state := by
  have hsettled := step_settled hbook (RunProgress.step_eq hstep).1
  have hfilled := s.before.state.market_filled s.now
  have hfits : s.before.state.kernel.portfolio.booksFit
      (s.before.state.kernel.book.fills s.now s.slice) := by
    rw [StepTaken.isExact, Bool.and_eq_true] at hexact
    exact hexact.1
  have hmoney : Reconciled initial s.after.state.kernel.book.filled
      s.after.state.kernel.portfolio := by
    rw [hsettled.filled_eq, hsettled.portfolio_eq, market_portfolio]
    have hbooked := h.money.bookAll (fun o ho => (OrderBook.fills_priced ho).2) hfits
    exact hbooked.perm hfilled.symm
  -- An order that is filled after the step was filled before it, or is filled by its slice.
  have hmem : ∀ o ∈ s.after.state.kernel.book.filled, o ∈ s.before.state.kernel.book.filled ∨
      o ∈ s.before.state.kernel.book.fills s.now s.slice := by
    intro o ho
    rw [hsettled.filled_eq] at ho
    exact List.mem_append.1 (hfilled.mem_iff.1 ho)
  have hmarked : ∀ o ∈ s.after.state.kernel.book.filled,
      (StepTaken.mark (past ++ [s]) o.symbol).isSome := by
    intro o ho
    rw [StepTaken.mark_snoc, Option.isSome_or, Bool.or_eq_true]
    obtain hbefore | hfill := hmem o ho
    · exact .inr (h.marked o hbefore)
    · exact .inl (OrderBook.fills_priced hfill).1
  refine ⟨hmoney, fun symbol => ?_, fun o ho => ?_, hmarked, fun symbol hheld => ?_⟩
  · rw [hsettled.marks_eq, market_marks, StepTaken.mark_snoc, h.marks_eq]
    rfl
  · obtain hbefore | hfill := hmem o ho
    · exact h.priced o hbefore
    · exact (OrderBook.fills_priced hfill).2
  · obtain ⟨o, ho, rfl⟩ := hmoney.exists_filled hheld
    exact hmarked o ho

/-- A state whose money agrees with its orders is worth the initial cash with the gain of every
filled order at its mark. -/
theorem Balanced.equity_eq {initial : Int} {past : List (StepTaken S sel)} {r : RunState S sel}
    (h : Balanced initial past r) (hfits : r.kernel.portfolio.equityFits r.marks.get?) :
    r.kernel.portfolio.equity r.marks.get? = initial +
      (r.kernel.book.filled.map fun o => o.gain ((StepTaken.mark past o.symbol).getD 0)).sum := by
  have hmark : r.marks.get? = StepTaken.mark past := funext h.marks_eq
  rw [hmark] at hfits ⊢
  exact h.money.equity_eq h.held_marked hfits

end RunState

namespace StepTaken

variable {S : Strategy} {sel : Selector}

/-- A sample is that of a step: of its date and cash, worth the initial cash with the gain of every
filled order at its mark. -/
structure Sampled (initial : Int) (past : List (StepTaken S sel)) (s : StepTaken S sel)
    (point : EquityPoint) : Prop where
  balanced : s.after.state.Balanced initial (past ++ [s])
  date_eq : point.date = s.now.date
  cash_eq : point.cash = s.after.state.kernel.portfolio.cash
  equity_eq : point.equity = initial + (s.after.state.kernel.book.filled.map fun o =>
    o.gain ((mark (past ++ [s]) o.symbol).getD 0)).sum

end StepTaken

namespace Engine

/-- A strategy that is initialized has the initial cash and no filled order. -/
theorem begin_balanced (e : Engine) (S : Strategy) :
    (e.begin S).state.Balanced e.settings.initialCash [] := by
  let start := RunState.start S e.selector e.settings e.prices e.contracts
  have hbook : start.kernel.book.Consistent [] := OrderBook.consistent_start _ _
  have hcalled := RunState.call_called hbook
    (.startOf e.settings.start e.settings.resolution) "initialize" S.onStart
  have hfilled : (e.begin S).state.kernel.book.filled = [] := hcalled.settled.filled_eq
  have hmoney : Reconciled e.settings.initialCash (e.begin S).state.kernel.book.filled
      (e.begin S).state.kernel.portfolio := by
    have hportfolio : (e.begin S).state.kernel.portfolio = .ofCash e.settings.initialCash :=
      hcalled.settled.portfolio_eq
    rw [hfilled, hportfolio]
    exact .ofCash _
  have hmarks : (e.begin S).state.marks = .empty := hcalled.settled.marks_eq
  refine ⟨hmoney, fun symbol => ?_, fun o ho => ?_, fun o ho => ?_, fun symbol hheld => ?_⟩
  · rw [hmarks]
    rfl
  · exact absurd ho (by simp [hfilled])
  · exact absurd ho (by simp [hfilled])
  · obtain ⟨o, ho, -⟩ := hmoney.exists_filled hheld
    exact absurd ho (by simp [hfilled])

/-- A step that samples the portfolio adds one sample, its own. -/
theorem sampled_of_mem {S : Strategy} {sel : Selector} {initial : Int}
    {past : List (StepTaken S sel)} {s : StepTaken S sel}
    (hstep : s.before.step s.clock s.now = .ok s.after) (hexact : s.isExact)
    (hbalanced : s.after.state.Balanced initial (past ++ [s])) {point : EquityPoint}
    (hpoint : point ∈ s.after.curve) :
    point ∈ s.before.curve ∨ s.Sampled initial past point := by
  rw [(RunProgress.step_eq hstep).2.2] at hpoint
  by_cases hsamples : s.samples
  · rw [StepTaken.samples] at hsamples
    rw [if_pos hsamples, List.mem_append, List.mem_singleton] at hpoint
    refine hpoint.imp_right fun heq => ?_
    have hfits : s.after.state.kernel.portfolio.equityFits s.after.state.marks.get? := by
      rw [StepTaken.isExact, StepTaken.samples, hsamples, Bool.and_eq_true] at hexact
      simpa using hexact.2
    obtain rfl := heq
    exact ⟨hbalanced, rfl, rfl, hbalanced.equity_eq hfits⟩
  · rw [StepTaken.samples] at hsamples
    rw [if_neg hsamples] at hpoint
    exact .inl hpoint

/-- In a run without saturation or overflow, completed or not, cash, holdings and marks agree with
the filled orders after every step; every sample is that of a step taken; and the result has this
cash and these holdings. -/
theorem after_balanced {e : Engine} {S : Strategy} {fuel : Nat} {p : RunProgress S e.selector}
    (h : e.after S fuel = .ok p) (hexact : ∀ s ∈ e.taken S fuel, s.isExact) :
    p.state.Balanced e.settings.initialCash (e.taken S fuel) ∧
    (∀ point ∈ p.curve, ∃ past s later, e.taken S fuel = past ++ s :: later ∧
      s.Sampled e.settings.initialCash past point) ∧
    (e.result S p).finalCash =
      e.settings.initialCash - (p.state.kernel.book.filled.map Order.cost).sum ∧
    (∀ symbol, ((e.result S p).holdings.filter fun held => held.symbol = symbol).map
      HoldingSummary.quantity =
        if netQuantity p.state.kernel.book.filled symbol = 0 then []
        else [netQuantity p.state.kernel.book.filled symbol]) ∧
    (e.host.strategy = .ok S → fuel = e.span → e.run = .ok (e.result S p)) := by
  obtain ⟨hbalanced, hcurve⟩ := after_consistent_induction (P := fun past p =>
    (∀ s ∈ past, s.isExact) → p.state.Balanced e.settings.initialCash past ∧
      ∀ point ∈ p.curve, ∃ front s back, past = front ++ s :: back ∧
        s.Sampled e.settings.initialCash front point)
    (fun _ => ⟨e.begin_balanced S, fun point hpoint => absurd hpoint List.not_mem_nil⟩)
    (by
      intro past s hbook hpast hstep hall
      have hlast : s.isExact := hall s (List.mem_append_right _ List.mem_cons_self)
      obtain ⟨hbefore, hcurve⟩ := hpast fun s hs => hall s (List.mem_append_left _ hs)
      have hafter := hbefore.step hbook hstep hlast
      refine ⟨hafter, fun point hpoint => ?_⟩
      obtain hold | hnew := sampled_of_mem hstep hlast hafter hpoint
      · obtain ⟨front, t, back, rfl, hsampled⟩ := hcurve point hold
        exact ⟨front, t, back ++ [s], by simp, hsampled⟩
      · exact ⟨past, s, [], rfl, hnew⟩)
    h hexact
  refine ⟨hbalanced, hcurve, hbalanced.money.cash_eq, fun symbol => ?_, fun hS hspan => ?_⟩
  · rw [← hbalanced.money.held_eq symbol]
    have hopen : (p.state.kernel.portfolio.holdings.entries.filter fun held => !held.2.isFlat) =
        p.state.kernel.portfolio.holdings.entries := by
      refine List.filter_eq_self.2 fun held hheld => ?_
      simpa [Holding.isFlat] using hbalanced.money.not_flat (SortedMap.mem_entries.1 hheld)
    simp only [result]
    rw [hopen, List.filter_map, List.map_map]
    rfl
  · subst hspan
    have hprogress : e.progress S = .ok p := h
    rw [run, hS]
    simp only [hprogress, Except.map]

/-- A strategy that buys 10 with its first slice and sells 15 with its third, and so turns from long
to short; its state counts the slices. -/
def reverser (symbol : Symbol) : Strategy where
  State := Nat
  Code := Empty
  spec := ⟨"reverser", none⟩
  initial := 0
  onStart state := Strategy.idle state
  onSecuritiesChanged state _ := Strategy.idle state
  onData state _ :=
    match state with
    | 0 => .perform (.market symbol 10) fun _ => Strategy.idle 1
    | 2 => .perform (.market symbol (-15)) fun _ => Strategy.idle 3
    | seen => Strategy.idle (seen + 1)
  onOrderEvent state _ := Strategy.idle state
  onScheduled state _ := Strategy.idle state
  onCallback state _ := Strategy.idle state

/-- A run with a print on each date, at 100, 110, 120, 130 and 125. -/
def reversal : Engine :=
  .sample (reverser (.equity "SPY")) (.equity "SPY")
    [100000000, 110000000, 120000000, 130000000, 125000000]

/-- The run from long to short is exact. It buys 10 at 110 and sells 15 at 130, and its short
position of 5 is marked at 125 in the end. -/
theorem reversal_balanced : ∃ p, reversal.after (reverser (.equity "SPY")) 5 = .ok p ∧
    p.state.Balanced 100000000000 (reversal.taken (reverser (.equity "SPY")) 5) ∧
    p.state.kernel.portfolio.cash = 100850000000 ∧
    netQuantity p.state.kernel.book.filled (.equity "SPY") = -5 ∧
    (p.curve.map EquityPoint.equity).getLast? = some 100225000000 := by
  have hexact : ((reversal.taken (reverser (.equity "SPY")) 5).all StepTaken.isExact) = true := by
    decide +kernel
  have hvalues : (reversal.after (reverser (.equity "SPY")) 5).toOption.map (fun p =>
      (p.state.kernel.portfolio.cash, netQuantity p.state.kernel.book.filled (.equity "SPY"),
        (p.curve.map EquityPoint.equity).getLast?)) =
      some (100850000000, -5, some 100225000000) := by
    decide +kernel
  cases hafter : reversal.after (reverser (.equity "SPY")) 5 with
  | error failure => simp [hafter, Except.toOption] at hvalues
  | ok p =>
      simp only [hafter, Except.toOption, Option.map_some, Option.some.injEq,
        Prod.mk.injEq] at hvalues
      have hbalanced := after_balanced hafter (List.all_eq_true.1 hexact)
      exact ⟨p, rfl, hbalanced.1, hvalues⟩

end Engine

end MarketReplay
