import MarketReplay.Proofs.Run.Deliveries
import MarketReplay.Proofs.Run.OpeningFills
import MarketReplay.Proofs.Tape.Prints

/-!
# When fills are booked

Cash and holdings move by the fills of the steps, each in the step whose instant is that of its
event (`Engine.booked`). Behind every fill is a print that its step has reached, and the time of the
fill is not before the submission. It is not after the event either, unless an order for the opening
is filled at the open of a bar stamped at midnight: this stands for the session of its date, and the
fill is of the time at which the session opens (`Engine.fills_backed`).
-/

namespace MarketReplay

variable {calendar : Calendar} {mode : Normalization}

/-! ### Fills by prints -/

/-- Whether an order is filled by a print at a price and a time: a market order at the price of the
print and its time, one for the opening at the open of the print and the time at which it opens its
session. -/
def Order.FilledBy (calendar : Calendar) (mode : Normalization) (o : Order) (print : PricePoint)
    (price : Int) (time : DateTime) : Prop :=
  match o.orderType with
  | .market => price = print.priceIn mode ∧ print.time = time
  | .marketOnOpen => price = print.openIn mode ∧ openingTime calendar print = some time

/-- Whether an order is filled at the open of a bar stamped at midnight, when the session of its
date opens. -/
structure Order.OpenedBy (calendar : Calendar) (o : Order) (bar : PricePoint) (time : DateTime) :
    Prop where
  orderType_eq : o.orderType = .marketOnOpen
  has_open : bar.openPrice.isSome
  midnight : bar.time = .midnight bar.time.date
  sessionOpen_eq : calendar.sessionOpen bar.time.date = some time

/-- A fill is not later than its print, unless this is a bar stamped at midnight. -/
theorem Order.FilledBy.time_le_or {o : Order} {print : PricePoint} {price : Int} {time : DateTime}
    (h : o.FilledBy calendar mode print price time) :
    time ≤ print.time ∨ o.OpenedBy calendar print time := by
  unfold FilledBy at h
  cases htype : o.orderType with
  | market =>
      rw [htype] at h
      exact .inl (Int.le_of_eq (congrArg DateTime.stamp h.2.symm))
  | marketOnOpen =>
      rw [htype] at h
      refine (openingTime_le_or h.2).imp_right ?_
      intro ⟨hopen, hmidnight, hsession⟩
      exact ⟨htype, hopen, hmidnight, hsession⟩

/-- A quote fills an order by a print of the series, not before the submission. -/
theorem OrderBook.fillBy_printed {series : List PricePoint} {moment : DateTime} {quote : Quote}
    (hquote : quote.Printed calendar mode series moment) {o : Order} {price : Int}
    {time : DateTime} (h : fillBy calendar o quote = some (price, time)) :
    o.submitted.time ≤ time ∧
      ∃ print ∈ series, print.time ≤ moment ∧ o.FilledBy calendar mode print price time := by
  unfold Order.FilledBy
  cases htype : o.orderType with
  | market =>
      rw [fillBy_market calendar htype] at h
      obtain ⟨hprint, hvalues⟩ := Option.ite_none_right_eq_some.1 h
      obtain ⟨rfl, rfl⟩ := Prod.mk.inj (Option.some.inj hvalues)
      obtain ⟨print, hmem, hreached, htime, hprice⟩ := hquote.price
      exact ⟨hprint, print, hmem, hreached, hprice, htime.symm⟩
  | marketOnOpen =>
      obtain ⟨due, opening, hdue, hopening, hle, rfl, rfl⟩ := (fillBy_marketOnOpen htype).1 h
      obtain ⟨print, hmem, hreached, htime, hprice⟩ := hquote.opening opening hopening
      have hafter := Calendar.lt_date_of_nextSessionOpen hdue hle
      exact ⟨Int.le_of_lt (DateTime.lt_of_date_lt hafter), print, hmem, hreached, hprice, htime⟩

/-- Whether the fills in the queue of a book are among known ones. -/
def OrderBook.FillsAmong (known : List OrderEvent) (b : OrderBook) : Prop :=
  ∀ ev ∈ b.pending, ev.isFill → ev ∈ known

/-- Submissions and cancellations queue no fill. -/
theorem OrderBook.fillsAmong_keptAt (now : Instant) (known : List OrderEvent) :
    KeptAt now (FillsAmong known) where
  submit := by
    intro b b' request tracked cash order h hsubmit ev hev hfill
    obtain ⟨warnings, -, rfl, rfl⟩ := submit_eq_ok hsubmit
    rcases List.mem_append.1 hev with hev | hev
    · exact h ev hev hfill
    · obtain rfl := List.mem_singleton.1 hev
      cases hfill
  cancel := by
    intro b b' id e h hcancel ev hev hfill
    obtain ⟨order, -, -, rfl, rfl⟩ := cancel_eq_ok hcancel
    rcases List.mem_append.1 hev with hev | hev
    · exact h ev hev hfill
    · obtain rfl := List.mem_singleton.1 hev
      cases hfill

/-! ### Fills of steps -/

variable {S : Strategy} {sel : Selector}

/-- The fills of a step from a state, in the order in which they are booked. -/
def RunState.matched (r : RunState S sel) (now : Instant) : List OrderEvent :=
  (r.kernel.book.evaluate now (r.market now).2.1).1

/-- The fills of a step. -/
def StepTaken.matched (s : StepTaken S sel) : List OrderEvent := s.before.state.matched s.now

namespace RunState

variable {r r' : RunState S sel} {now : Instant} {failure : Option RunFailure} {ev : OrderEvent}

/-- A step delivers what it has delivered before, and events from the queue at its dispatch. -/
theorem step_delivered (h : r.step now = .ok (r', failure)) (hev : ev ∈ r'.delivered) :
    ev ∈ r.delivered ∨ ev ∈ (r.told now).kernel.book.pending := by
  have htold := r.told_delivered now
  obtain ⟨q, f, hfailed, -, rfl⟩ | ⟨q, q', hdone, hdispatch, rfl⟩ := step_cases h
  · have hq : r.told now = q := congrArg Prod.fst hfailed
    rw [hq] at htold
    have hsame : q.install.delivered = r.delivered := htold
    exact .inl (hsame ▸ hev)
  · have hq : r.told now = q := congrArg Prod.fst hdone
    obtain ⟨due, scheduler, -, hresult⟩ := dispatch_eq hdispatch
    have hall := deliverAll_delivered now (interleave q.kernel.book.drain.1 due)
      (q.drained scheduler)
    have hbefore : (q.drained scheduler).delivered = r.delivered := by
      rw [← htold, hq]
      rfl
    rw [hresult, eventsOf_interleave, hbefore] at hall
    have hmem : ev ∈ r.delivered ++ q.kernel.book.drain.1 :=
      hall ▸ List.mem_append_left _ hev
    rw [hq]
    refine (List.mem_append.1 hmem).imp_right fun hdrained => ?_
    exact (List.mergeSort_perm _ _).mem_iff.1 hdrained

/-- The fills that a step delivers or leaves in the queue were known before it, or are its own. -/
theorem step_fills (h : r.step now = .ok (r', failure)) (hfill : ev.isFill)
    (hev : ev ∈ r'.delivered ++ r'.kernel.book.pending) :
    ev ∈ r.delivered ++ r.kernel.book.pending ∨ ev ∈ r.matched now := by
  have hkept := OrderBook.fillsAmong_keptAt now (r.kernel.book.pending ++ r.matched now)
  have hmarket : (r.market now).2.2.kernel.book.FillsAmong
      (r.kernel.book.pending ++ r.matched now) := fun _ hx _ => hx
  rw [List.mem_append, or_assoc, ← List.mem_append (s := r.kernel.book.pending)]
  rcases List.mem_append.1 hev with hdelivered | hpending
  · refine (step_delivered h hdelivered).imp_right fun htold => ?_
    exact notify_book hkept hmarket (r.market now).1 (r.market now).2.1 ev htold hfill
  · have hdrain : ∀ b : OrderBook, b.FillsAmong (r.kernel.book.pending ++ r.matched now) →
        b.drain.2.FillsAmong (r.kernel.book.pending ++ r.matched now) :=
      fun _ _ _ hx => absurd hx List.not_mem_nil
    exact .inr (step_book hkept hdrain hmarket h ev hpending hfill)

end RunState

namespace Engine

variable {e : Engine} {S : Strategy} {fuel : Nat} {p : RunProgress S e.selector}

/-- The quotes of every slice of a run are made of prints up to the instant of its step. -/
theorem slice_printed (h : e.after S fuel = .ok p) :
    ∀ s ∈ e.taken S fuel, ∀ symbol quote, s.slice.get? symbol = some quote →
      quote.Printed e.settings.calendar e.settings.normalization (Feed.seriesOf e.prices symbol)
        s.now.time := by
  -- The feed holds prints up to any moment that no step was later than.
  have hall := after_induction (P := fun past p => Chronological e.initial.time past →
    (∀ moment, (∀ t ∈ past, t.now.time ≤ moment) → p.state.feed.Backed e.prices
      e.settings.calendar e.settings.normalization moment) ∧
    ∀ s ∈ past, ∀ symbol quote, s.slice.get? symbol = some quote →
      quote.Printed e.settings.calendar e.settings.normalization (Feed.seriesOf e.prices symbol)
        s.now.time) ?_ ?_ h
  · exact (hall (e.taken_chronological S fuel)).2
  · intro _
    exact ⟨fun moment _ => Feed.Backed.start e.prices _ _ moment,
      fun s hs => absurd hs List.not_mem_nil⟩
  · intro past s hbefore _ htaken hchron
    obtain ⟨hpast, hlater, -⟩ := hchron.of_concat
    obtain ⟨hbacked, hprinted⟩ := hbefore hpast
    obtain ⟨hslice, hfeed⟩ := StepTaken.slice_eq htaken
    obtain ⟨hread, hquotes⟩ := Feed.Backed.slice
      (hbacked s.now.time fun t ht => Int.le_of_lt (hlater t ht)) s.requested
    refine ⟨fun moment hmoment => ?_, fun t ht => ?_⟩
    · rw [hfeed]
      exact hread.mono (hmoment s List.mem_concat_self)
    · rcases List.mem_append.1 ht with ht | ht
      · exact hprinted t ht
      · obtain rfl := List.mem_singleton.1 ht
        rw [hslice]
        exact hquotes

/-- What is behind a fill of a step, the event of an order that was open before the step: a print
that the step has reached and that fills the order, at a time that is not before its submission. The
time is not after the event, unless the order is filled at the open of a bar stamped at midnight. -/
structure Backs (e : Engine) (s : StepTaken S e.selector) (ev : OrderEvent) (o : Order)
    (print : PricePoint) (price : Int) (time : DateTime) : Prop where
  order_mem : o ∈ s.before.state.kernel.book.orders
  order_open : o.status = .submitted
  event_eq : ev.orderId = o.id ∧ ev.symbol = o.symbol ∧ ev.quantity = o.quantity ∧
    ev.status = .filled ∧ ev.submitted = o.submitted
  event_time : ev.time = s.now.time
  fillPrice_eq : ev.fillPrice = some price
  fillTime_eq : ev.fillTime = some time
  print_mem : print ∈ Feed.seriesOf e.prices o.symbol
  print_le : print.time ≤ ev.time
  filledBy : o.FilledBy e.settings.calendar e.settings.normalization print price time
  submitted_le : ev.submitted.time ≤ time
  time_le : time ≤ ev.time ∨ o.OpenedBy e.settings.calendar print time

/-- Behind every fill of a step of a run is a print that the step has reached. -/
theorem matched_backed (h : e.after S fuel = .ok p) {s : StepTaken S e.selector}
    (hs : s ∈ e.taken S fuel) {ev : OrderEvent} (hev : ev ∈ s.matched) :
    ∃ o print price time, e.Backs s ev o print price time := by
  obtain ⟨o, ho, filled, n, hfill, rfl⟩ := OrderBook.mem_matchAll hev
  obtain ⟨hopen, -, quote, hquote, price, time, hby, rfl⟩ := OrderBook.fill?_eq_some_iff.1 hfill
  rw [calendar_eq h s hs] at hby
  obtain ⟨hsubmitted, print, hprint, hreached, hfilledBy⟩ :=
    OrderBook.fillBy_printed (slice_printed h s hs o.symbol quote hquote) hby
  refine ⟨o, print, price, time, ho, hopen, ⟨rfl, rfl, rfl, rfl, rfl⟩, rfl, rfl, rfl, hprint,
    hreached, hfilledBy, hsubmitted, ?_⟩
  exact hfilledBy.time_le_or.imp_left fun hle => Int.le_trans hle hreached

/-- The portfolio of the initial cash in which the fills of some steps are booked. -/
def booked (e : Engine) (past : List (StepTaken S e.selector)) : Portfolio :=
  (past.flatMap StepTaken.matched).foldl RunState.applyFill (.ofCash e.settings.initialCash)

/-- The fills of one more step are booked in it. -/
theorem booked_concat (past : List (StepTaken S e.selector)) (s : StepTaken S e.selector) :
    e.booked (past ++ [s]) = s.matched.foldl RunState.applyFill (e.booked past) := by
  unfold booked
  rw [List.flatMap_append, List.foldl_append, List.flatMap_singleton]

/-- Cash and holdings of a run are those of the fills of its steps, before each step and at last. -/
theorem portfolio_booked (h : e.after S fuel = .ok p) :
    p.state.kernel.portfolio = e.booked (e.taken S fuel) ∧
      ∀ past s later, e.taken S fuel = past ++ s :: later →
        s.before.state.kernel.portfolio = e.booked past ∧
          s.after.state.kernel.portfolio = e.booked (past ++ [s]) := by
  refine after_consistent_induction (P := fun past p =>
    p.state.kernel.portfolio = e.booked past ∧ ∀ front s back, past = front ++ s :: back →
      s.before.state.kernel.portfolio = e.booked front ∧
        s.after.state.kernel.portfolio = e.booked (front ++ [s])) ?_ ?_ h
  · refine ⟨?_, fun front s back hsplit => absurd hsplit.symm (by simp)⟩
    let start := RunState.start S e.selector e.settings e.prices e.contracts
    have hbook : start.kernel.book.Consistent [] := OrderBook.consistent_start _ _
    exact (RunState.call_called hbook e.initial "initialize" S.onStart).settled.portfolio_eq
  · intro past s hbook hpast hstep
    obtain ⟨hbefore, hsplits⟩ := hpast
    have hafter : s.after.state.kernel.portfolio = e.booked (past ++ [s]) := by
      rw [(RunState.step_settled hbook (RunProgress.step_eq hstep).1).portfolio_eq, booked_concat,
        ← hbefore]
      rfl
    refine ⟨hafter, fun front t back hsplit => ?_⟩
    rcases split_concat hsplit with ⟨rfl, rfl⟩ | ⟨init, -, hfront⟩
    · exact ⟨hbefore, hafter⟩
    · exact hsplits front t init hfront

/-- The fills that a run delivers or leaves in the queue are those of its steps. -/
theorem fills_matched (h : e.after S fuel = .ok p) {ev : OrderEvent} (hfill : ev.isFill)
    (hev : ev ∈ p.state.delivered ++ p.state.kernel.book.pending) :
    ∃ s ∈ e.taken S fuel, ev ∈ s.matched := by
  refine after_induction (P := fun past p => ∀ ev : OrderEvent, ev.isFill →
    ev ∈ p.state.delivered ++ p.state.kernel.book.pending → ∃ s ∈ past, ev ∈ s.matched)
    ?_ ?_ h ev hfill hev
  · let start := RunState.start S e.selector e.settings e.prices e.contracts
    have hstart : start.kernel.book.FillsAmong [] := fun _ hev _ => hev
    intro ev hfill hev
    have hnone := RunState.call_book (OrderBook.fillsAmong_keptAt e.initial []) hstart
      "initialize" S.onStart ev hev hfill
    cases hnone
  · intro past s hpast _ hstep ev hfill hev
    rcases RunState.step_fills (RunProgress.step_eq hstep).1 hfill hev with hbefore | hmatched
    · obtain ⟨t, ht, hmem⟩ := hpast ev hfill hbefore
      exact ⟨t, List.mem_append_left _ ht, hmem⟩
    · exact ⟨s, List.mem_concat_self, hmatched⟩

/-- In a run that gives a result, every fill of a step is backed by a print; cash and holdings are
at any time those of the fills of the steps so far; and the fills of the result are fills of the
steps. -/
theorem fills_backed {result : RunResult} (h : e.run = .ok result) :
    ∃ (S : Strategy) (p : RunProgress S e.selector), e.host.strategy = .ok S ∧
      e.after S e.span = .ok p ∧ result = e.result S p ∧
      (∀ s ∈ e.taken S e.span, ∀ ev ∈ s.matched,
        ∃ o print price time, e.Backs s ev o print price time) ∧
      (∀ past s later, e.taken S e.span = past ++ s :: later →
        s.before.state.kernel.portfolio = e.booked past ∧
          s.after.state.kernel.portfolio = e.booked (past ++ [s])) ∧
      p.state.kernel.portfolio = e.booked (e.taken S e.span) ∧
      ∀ ev ∈ result.fills, ∃ s ∈ e.taken S e.span, ev ∈ s.matched := by
  obtain ⟨S, p, hS, hp, rfl⟩ := run_eq h
  obtain ⟨hportfolio, hsteps⟩ := portfolio_booked hp
  refine ⟨S, p, hS, hp, rfl, fun s hs ev hev => matched_backed hp hs hev, hsteps, hportfolio,
    fun ev hev => ?_⟩
  obtain ⟨hmem, hfill⟩ := List.mem_filter.1 hev
  refine fills_matched hp hfill ?_
  rcases List.mem_append.1 hmem with hdelivered | hdrained
  · exact List.mem_append_left _ hdelivered
  · exact List.mem_append_right _ ((List.mergeSort_perm _ _).mem_iff.1 hdrained)

/-- The bar of the sample week, stamped at the close of its session. -/
def closingBar : PricePoint := { bar with time := ⟨bar.time.date, Calendar.closeTime⟩ }

/-- The daily run over this bar. -/
def closing : Engine :=
  { barred with prices := fun symbol => if symbol = .equity "SPY" then some [closingBar] else none }

/-- The step after the close fills the order of the first date at the open of the bar, at the time
at which its session opened. -/
theorem closing_backed :
    ∃ result ev, closing.run = .ok result ∧ result.fills = [ev] ∧
      ∃ (s : StepTaken opener closing.selector) (o : Order) (price : Int) (time : DateTime),
        s ∈ closing.taken opener closing.span ∧ closing.Backs s ev o closingBar price time ∧
        price = 108000000 ∧
        Calendar.sessionOpen .exchangeWeekdays bar.time.date = some time ∧ time ≤ ev.time := by
  have hrun : closing.run.toOption.map (fun r => r.fills.map fun ev =>
      (ev.symbol, ev.fillPrice, ev.fillTime, ev.fillTime.any fun time => time ≤ ev.time)) =
        some [(.equity "SPY", some 108000000,
          Calendar.sessionOpen .exchangeWeekdays bar.time.date, true)] := by
    decide +kernel
  obtain ⟨result, hresult, hfills⟩ := Option.map_eq_some_iff.1 hrun
  obtain ⟨ev, hfills, hvalues⟩ := List.map_eq_singleton_iff.1 hfills
  obtain ⟨hsymbol, hrest⟩ := Prod.mk.inj hvalues
  obtain ⟨hprice, hrest⟩ := Prod.mk.inj hrest
  obtain ⟨htime, hreached⟩ := Prod.mk.inj hrest
  obtain ⟨S, p, hS, hp, -, hbacked, -, -, hmatched⟩ := fills_backed (eq_ok_of_toOption hresult)
  obtain rfl : opener = S := Except.ok.inj hS
  have hev : ev ∈ result.fills := by
    rw [hfills]
    exact List.mem_cons_self
  obtain ⟨s, hs, hmem⟩ := hmatched ev hev
  obtain ⟨o, print, price, time, hbacks⟩ := hbacked s hs ev hmem
  -- The bar is the only print.
  have hseries : Feed.seriesOf closing.prices (.equity "SPY") = [closingBar] := by decide +kernel
  have hprint : print = closingBar := by
    have hseen := hbacks.print_mem
    rw [← hbacks.event_eq.2.1, hsymbol, hseries] at hseen
    exact List.mem_singleton.1 hseen
  rw [hprint] at hbacks
  rw [hbacks.fillPrice_eq] at hprice
  rw [hbacks.fillTime_eq] at htime hreached
  exact ⟨result, ev, eq_ok_of_toOption hresult, hfills, s, o, price, time, hs, hbacks,
    Option.some.inj hprice, htime.symm, of_decide_eq_true hreached⟩

/-- The order of the first date is filled when the bar that is stamped at midnight is read, at a
time that is still to come. -/
theorem barred_ahead : ∃ result ev time, barred.run = .ok result ∧ ev ∈ result.fills ∧
    ev.fillTime = some time ∧ ev.time < time := by
  have hrun : ((barred.run.toOption.bind fun r => r.fills.head?).bind fun ev =>
      ev.fillTime.map fun time => decide (ev.time < time)) = some true := by
    decide +kernel
  obtain ⟨ev, hev, hlater⟩ := Option.bind_eq_some_iff.1 hrun
  obtain ⟨result, hresult, hhead⟩ := Option.bind_eq_some_iff.1 hev
  obtain ⟨time, htime, hlt⟩ := Option.map_eq_some_iff.1 hlater
  exact ⟨result, ev, time, eq_ok_of_toOption hresult, List.mem_of_mem_head? hhead, htime,
    of_decide_eq_true hlt⟩

end Engine

end MarketReplay
