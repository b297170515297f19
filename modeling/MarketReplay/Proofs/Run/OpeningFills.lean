import MarketReplay.Proofs.Run.MarketFills
import MarketReplay.Proofs.Tape.Openings

/-!
# When orders for the opening are filled

An order for the opening is filled at the last session that the series of its symbol have opened
(`Engine.fill_eq_opening`). The session is later than the submission, and the print is the first one
that can open it (`Engine.filled_at_opening`). The step that reaches the first session with a print
fills the order, and does so at that session unless it reaches a later one too
(`Engine.filled_at_last_session`).
-/

namespace MarketReplay

namespace OrderBook

/-- Submissions and cancellations keep the calendar of a book. -/
theorem calendar_keptAt (now : Instant) (calendar : Calendar) :
    KeptAt now fun b => b.calendar = calendar where
  submit := by
    rintro b b' request tracked cash order rfl hsubmit
    obtain ⟨warnings, -, -, rfl⟩ := submit_eq_ok hsubmit
    rfl
  cancel := by
    rintro b b' id event rfl hcancel
    obtain ⟨order, -, -, -, rfl⟩ := cancel_eq_ok hcancel
    rfl

/-- A quote fills an order for the opening by its session, unless this opened before the first one
after the submission date. -/
theorem fillBy_marketOnOpen {calendar : Calendar} {order : Order}
    (htype : order.orderType = .marketOnOpen) {quote : Quote} {price : Int} {time : DateTime} :
    fillBy calendar order quote = some (price, time) ↔
      ∃ due opening, calendar.nextSessionOpen order.submitted.date = some due ∧
        quote.sessionOpen = some opening ∧ due ≤ opening.time ∧ opening.price = price ∧
        opening.time = time := by
  unfold fillBy
  rw [htype]
  simp only
  constructor
  · intro h
    split at h
    · rename_i due opening hdue hopening
      obtain ⟨hreached, hvalues⟩ := Option.ite_none_right_eq_some.1 h
      obtain ⟨hprice, htime⟩ := Prod.mk.inj (Option.some.inj hvalues)
      exact ⟨due, opening, hdue, hopening, hreached, hprice, htime⟩
    · cases h
  · rintro ⟨due, opening, hdue, hopening, hreached, rfl, rfl⟩
    rw [hdue, hopening]
    exact if_pos hreached

end OrderBook

namespace Engine

variable {e : Engine} {S : Strategy} {fuel : Nat} {p : RunProgress S e.selector}

/-- The book of a run has the calendar of its settings before each step. -/
theorem calendar_eq (h : e.after S fuel = .ok p) :
    ∀ s ∈ e.taken S fuel, s.before.state.kernel.book.calendar = e.settings.calendar :=
  (after_book (P := fun b => b.calendar = e.settings.calendar) rfl
    (fun now => OrderBook.calendar_keptAt now e.settings.calendar) (fun _ _ _ hb => hb)
    (fun _ hb => hb) h).2

/-! ### Sessions of quotes -/

section Sessions

variable {moment : DateTime} {symbol : Symbol} {quote : Quote} {opening : SessionOpening}

/-- The session of a quote is that of the print that opened the last session. -/
theorem lastOpener_of_quoteAt (hsorted : ∀ symbol, TimeSorted (Feed.seriesOf e.prices symbol))
    (hquote : e.quoteAt moment symbol = some quote) (hopening : quote.sessionOpen = some opening) :
    ∃ print time,
      LastOpener e.settings.calendar (Feed.seriesOf e.prices symbol) moment print time ∧
      opening = ⟨print.time.date, time, print.openIn e.settings.normalization⟩ := by
  unfold quoteAt Quote.asOf at hquote
  obtain ⟨last, -, rfl⟩ := Option.map_eq_some_iff.1 hquote
  exact lastSession_upTo (hsorted symbol) e.settings.normalization hopening

/-- Once a print that can open a session is reached, there is a quote with a session. -/
theorem exists_quoteAt {print : PricePoint} (hprint : print ∈ Feed.seriesOf e.prices symbol)
    (hreached : print.time ≤ moment)
    (hopens : (openingTime e.settings.calendar print).isSome) :
    ∃ quote opening, e.quoteAt moment symbol = some quote ∧ quote.sessionOpen = some opening := by
  obtain ⟨opening, hopening⟩ :=
    exists_lastSession e.settings.normalization hprint hreached hopens
  have hmem : print ∈ upTo moment (Feed.seriesOf e.prices symbol) :=
    List.mem_filter.2 ⟨hprint, decide_eq_true hreached⟩
  unfold quoteAt Quote.asOf
  cases hlast : (upTo moment (Feed.seriesOf e.prices symbol)).getLast? with
  | none =>
      rw [List.getLast?_eq_none_iff.1 hlast] at hmem
      cases hmem
  | some last => exact ⟨_, opening, rfl, hopening⟩

end Sessions

/-! ### Fills -/

/-- A step that fills an order for the opening is later than its submission, and fills it at the
last session opened by then, which is not before the first one after the submission date. -/
theorem fill_eq_opening (hsorted : ∀ symbol, TimeSorted (Feed.seriesOf e.prices symbol))
    (h : e.after S fuel = .ok p) {o : Order} (ho : o ∈ p.state.kernel.book.orders)
    (htype : o.orderType = .marketOnOpen) {s : StepTaken S e.selector}
    (hs : s ∈ e.taken S fuel) (hfills : s.Fills o.id) :
    o.submitted.time < s.now.time ∧ ∃ print time due,
      LastOpener e.settings.calendar (Feed.seriesOf e.prices o.symbol) s.now.time print time ∧
      o.fillPrice = some (print.openIn e.settings.normalization) ∧ o.fillTime = some time ∧
      e.settings.calendar.nextSessionOpen o.submitted.date = some due ∧ due ≤ time := by
  obtain ⟨past, later, hsplit⟩ := List.append_of_mem hs
  obtain ⟨b, -, hbecomes, hfill⟩ := fills_at h ho hsplit hfills
  obtain ⟨-, hlater, quote, hquote, price, time, hby, hfilled⟩ :=
    OrderBook.fill?_eq_some_iff.1 hfill
  rw [calendar_eq h s hs] at hby
  obtain ⟨due, opening, hdue, hopening, hreached, hprice, htime⟩ :=
    (OrderBook.fillBy_marketOnOpen (hbecomes.orderType_eq.symm.trans htype)).1 hby
  rw [← hbecomes.submitted_eq] at hlater hdue
  rw [← hbecomes.symbol_eq] at hquote
  obtain ⟨print, time', hopener, rfl⟩ :=
    lastOpener_of_quoteAt hsorted (slice_asOf hsorted h s hs o.symbol quote hquote) hopening
  obtain rfl : print.openIn e.settings.normalization = price := hprice
  obtain rfl : time' = time := htime
  refine ⟨hlater, print, time', due, hopener, ?_, ?_, hdue, hreached⟩
  · rw [hfilled]
  · rw [hfilled]

/-- An order for the opening is filled if and only if a step fills it. The step is later than the
submission, and has reached the first print of a trading day that can open the session of that day,
which is later than the submission date. The price is the normalized open of the print; the time is
neither before the session opens nor before the first session after the submission date. -/
theorem filled_at_opening (hsorted : ∀ symbol, TimeSorted (Feed.seriesOf e.prices symbol))
    (h : e.after S fuel = .ok p) {o : Order} (ho : o ∈ p.state.kernel.book.orders)
    (htype : o.orderType = .marketOnOpen) :
    (o.status = .filled ↔ ∃ s ∈ e.taken S fuel, s.Fills o.id) ∧
      ∀ s ∈ e.taken S fuel, s.Fills o.id → o.submitted.time < s.now.time ∧
        ∃ print time opening due,
          firstOpener? e.settings.calendar (Feed.seriesOf e.prices o.symbol) time.date =
            some print ∧
          openingTime e.settings.calendar print = some time ∧ print.time.date = time.date ∧
          print.time ≤ s.now.time ∧
          o.fillPrice = some (print.openIn e.settings.normalization) ∧ o.fillTime = some time ∧
          e.settings.calendar.isTradingDay time.date ∧ o.submitted.date < time.date ∧
          e.settings.calendar.sessionOpen time.date = some opening ∧ opening ≤ time ∧
          e.settings.calendar.nextSessionOpen o.submitted.date = some due ∧ due ≤ time := by
  refine ⟨filled_iff_fills h ho, fun s hs hfills => ?_⟩
  obtain ⟨hlater, print, time, due, hopener, hprice, htime, hdue, hle⟩ :=
    fill_eq_opening hsorted h ho htype hs hfills
  obtain ⟨hdate, opening, hopening, hopened⟩ := openingTime_eq hopener.time_eq
  have hfirst := hopener.first
  rw [← hdate] at hfirst hopening
  have hafter : o.submitted.date < time.date := Calendar.lt_date_of_nextSessionOpen hdue hle
  exact ⟨hlater, print, time, opening, due, hfirst, hopener.time_eq, hdate.symm, hopener.reached,
    hprice, htime, (Calendar.sessionOpen_eq hopening).1, hafter, hopening, hopened, hdue, hle⟩

/-- The first order of a run that comes to its end is an order of its book. -/
theorem exists_order {β : Type} {f : Order → β} {value : β}
    (h : ((e.after S fuel).toOption.bind fun p => p.state.kernel.book.orders.head?).map f =
      some value) :
    ∃ p o, e.after S fuel = .ok p ∧ o ∈ p.state.kernel.book.orders ∧ f o = value := by
  obtain ⟨o, ho, hvalue⟩ := Option.map_eq_some_iff.1 h
  obtain ⟨p, hp, hhead⟩ := Option.bind_eq_some_iff.1 ho
  exact ⟨p, o, eq_ok_of_toOption hp, List.mem_of_mem_head? hhead, hvalue⟩

/-- The strategy that orders one for the next opening when it is told of its symbol. -/
def opener : Strategy :=
  { Builtin.noop with
    spec := ⟨"opener", none⟩
    onSecuritiesChanged := fun state _ =>
      Builtin.orderThen ⟨.equity "SPY", 1, .marketOnOpen, none⟩ state state }

/-- The daily bar of the second date of the sample week, which opens at 108 and closes at 110. -/
def bar : PricePoint :=
  ⟨.equity "SPY", secondDate, 110000000, some 108000000, PricePoint.unitFactor⟩

/-- The daily run over this bar. -/
def barred : Engine :=
  { sample opener (.equity "SPY") [] with
    prices := fun symbol => if symbol = .equity "SPY" then some [bar] else none }

/-- The order of the first date is filled at the open of the bar, at the time the session opens. -/
theorem barred_filled :
    ∃ p o s, barred.after opener 5 = .ok p ∧ o ∈ p.state.kernel.book.orders ∧
      o.orderType = .marketOnOpen ∧ s ∈ barred.taken opener 5 ∧ s.Fills o.id ∧
      o.submitted.time < s.now.time ∧ o.fillPrice = some 108000000 ∧
      ∃ opening, Calendar.sessionOpen .exchangeWeekdays bar.time.date = some opening ∧
        o.fillTime = some opening := by
  have horder : ((barred.after opener 5).toOption.bind fun p =>
      p.state.kernel.book.orders.head?).map (fun o => (o.orderType, o.status, o.symbol)) =
        some (.marketOnOpen, .filled, .equity "SPY") := by
    decide +kernel
  have hprints : TimeSorted [bar] := List.pairwise_singleton _ _
  have hsorted : ∀ symbol, TimeSorted (Feed.seriesOf barred.prices symbol) :=
    Feed.timeSorted_single hprints (.equity "SPY")
  obtain ⟨p, o, hok, ho, hvalues⟩ := exists_order horder
  obtain ⟨htype, hrest⟩ := Prod.mk.inj hvalues
  obtain ⟨hfilled, hsymbol⟩ := Prod.mk.inj hrest
  obtain ⟨hiff, hsteps⟩ := filled_at_opening hsorted hok ho htype
  obtain ⟨s, hs, hfills⟩ := hiff.1 hfilled
  obtain ⟨hlater, print, time, -, -, hfirst, htime, hdate, -, hprice, hfillTime, -⟩ :=
    hsteps s hs hfills
  -- The bar is the only print.
  have hbar : print = bar := by
    have hseries : Feed.seriesOf barred.prices (.equity "SPY") = [bar] := by decide +kernel
    have hmem := (firstOpener?_sound hfirst).1
    rw [hsymbol, hseries] at hmem
    exact List.mem_singleton.1 hmem
  rw [hbar] at hprice htime
  have hopening : openingTime barred.settings.calendar bar =
      Calendar.sessionOpen .exchangeWeekdays bar.time.date := by
    decide +kernel
  exact ⟨p, o, s, hok, ho, htype, hs, hfills, hlater, hprice, time, hopening ▸ htime, hfillTime⟩

/-- An order that was submitted before a step is open then, if no step before filled it and it was
not canceled. -/
theorem status?_eq_submitted (h : e.after S fuel = .ok p) {o : Order}
    (ho : o ∈ p.state.kernel.book.orders) {past later : List (StepTaken S e.selector)}
    {s : StepTaken S e.selector} (hsplit : e.taken S fuel = past ++ s :: later)
    (hlater : o.submitted.time < s.now.time) (hunfilled : ∀ t ∈ past, ¬ t.Fills o.id)
    (hkept : s.before.status? o.id ≠ some .canceled) :
    s.before.status? o.id = some .submitted := by
  cases hstatus : s.before.status? o.id with
  | none =>
      have hnew := (becomes_at h ho hsplit).2.2 hstatus
      exact absurd hlater (Int.not_lt.2 hnew)
  | some status =>
      cases status with
      | submitted => rfl
      | canceled => exact absurd hstatus hkept
      | filled =>
          obtain ⟨b, hb, hid, hfilled⟩ := StepTaken.mem_of_status? hstatus
          obtain ⟨htraced, -⟩ := (after_traced h).2 past s later hsplit
          obtain ⟨t, ht, hfills, -⟩ := htraced.filled b hb hfilled
          rw [hid] at hfills
          exact absurd hfills (hunfilled t ht)

/-- A step fills an open order for the opening if it reaches a print that can open a session after
the submission date. -/
theorem fills_of_reached (hsorted : ∀ symbol, TimeSorted (Feed.seriesOf e.prices symbol))
    (h : e.after S fuel = .ok p) {o : Order} (ho : o ∈ p.state.kernel.book.orders)
    (htype : o.orderType = .marketOnOpen) {past later : List (StepTaken S e.selector)}
    {s : StepTaken S e.selector} (hsplit : e.taken S fuel = past ++ s :: later)
    (hopen : s.before.status? o.id = some .submitted) (hdata : o.symbol ∈ s.requested)
    {print : PricePoint} (hprint : print ∈ Feed.seriesOf e.prices o.symbol)
    (hopens : (openingTime e.settings.calendar print).isSome)
    (hlater : o.submitted.date < print.time.date) (hreached : print.time ≤ s.now.time) :
    s.Fills o.id := by
  have hs : s ∈ e.taken S fuel := mem_of_split hsplit
  obtain ⟨b, hb, hid, hstatus⟩ := StepTaken.mem_of_status? hopen
  have hbecomes := (becomes_at h ho hsplit).1 b hb hid
  have hsound := ((after_traced h).2 past s later hsplit).2.1
  obtain ⟨quote, opening, hquote, hsession⟩ := exists_quoteAt hprint hreached hopens
  have hslice := slice_get? hsorted h s hs o.symbol
  rw [if_pos hdata, hquote, hbecomes.symbol_eq] at hslice
  -- The session of the quote is not before that of `print`, so it is due.
  obtain ⟨last, time, hopener, rfl⟩ := lastOpener_of_quoteAt hsorted hquote hsession
  obtain ⟨-, opened, hopened, hle⟩ := openingTime_eq hopener.time_eq
  have hafter : b.submitted.date < last.time.date := by
    rw [← hbecomes.submitted_eq]
    exact Int.lt_of_lt_of_le hlater (hopener.last print hprint hreached hopens)
  obtain ⟨due, hdue, hdueLe⟩ := Calendar.nextSessionOpen_of_lt hopened hafter
  have hby : OrderBook.fillBy s.before.state.kernel.book.calendar b quote =
      some (last.openIn e.settings.normalization, time) := by
    rw [calendar_eq h s hs]
    exact (OrderBook.fillBy_marketOnOpen (hbecomes.orderType_eq.symm.trans htype)).2
      ⟨due, _, hdue, hsession, Int.le_trans hdueLe hle, rfl, rfl⟩
  have hsubmitted : b.submitted.time < s.now.time := by
    rw [← hbecomes.submitted_eq]
    exact Int.lt_of_lt_of_le (DateTime.lt_of_date_lt hlater) hreached
  have hfill := OrderBook.fill?_eq_some_iff.2
    ⟨hstatus, hsubmitted, quote, hslice, _, _, hby, rfl⟩
  rw [← hid, hsound.fills_iff hb, hfill]
  rfl

/-- No step fills an order for the opening before the first print of the first session after its
submission date. -/
theorem not_fills_before (hsorted : ∀ symbol, TimeSorted (Feed.seriesOf e.prices symbol))
    (h : e.after S fuel = .ok p) {o : Order} (ho : o ∈ p.state.kernel.book.orders)
    (htype : o.orderType = .marketOnOpen) {date : Date} {print : PricePoint}
    (hnone : ∀ d : Date, o.submitted.date < d → d < date →
      firstOpener? e.settings.calendar (Feed.seriesOf e.prices o.symbol) d = none)
    (hprint : firstOpener? e.settings.calendar (Feed.seriesOf e.prices o.symbol) date =
      some print) {t : StepTaken S e.selector} (ht : t ∈ e.taken S fuel)
    (hbefore : t.now.time < print.time) : ¬ t.Fills o.id := by
  intro hfills
  obtain ⟨-, last, time, due, hopener, -, -, hdue, hle⟩ :=
    fill_eq_opening hsorted h ho htype ht hfills
  have hreached : last.time < print.time := Int.lt_of_le_of_lt hopener.reached hbefore
  have hdates : last.time.date.day ≤ print.time.date.day := DateTime.day_le (Int.le_of_lt hreached)
  rw [(firstOpener?_sound hprint).2.1] at hdates
  have hafter : o.submitted.date < last.time.date := by
    rw [← (openingTime_eq hopener.time_eq).1]
    exact Calendar.lt_date_of_nextSessionOpen hdue hle
  have hfirst := hopener.first
  by_cases hsame : last.time.date.day = date.day
  · -- The session is that of `print`, which would open it at a later time.
    rw [Date.ext_day hsame, hprint] at hfirst
    obtain rfl := Option.some.inj hfirst
    exact Int.lt_irrefl _ hreached
  · have hearlier : last.time.date.day < date.day := by omega
    rw [hnone last.time.date hafter hearlier] at hfirst
    cases hfirst

/-- Take the first date after the submission of an order for the opening on which a print can open
the session, and the first step that reaches the first such print, with the symbol among its data
symbols. Unless the order was canceled before, this step fills it, at the last session opened by
then; and this is the session of that date if and only if the step has reached no print that can
open a later one. -/
theorem filled_at_last_session (hsorted : ∀ symbol, TimeSorted (Feed.seriesOf e.prices symbol))
    (h : e.after S fuel = .ok p) {o : Order} (ho : o ∈ p.state.kernel.book.orders)
    (htype : o.orderType = .marketOnOpen) {date : Date} {print : PricePoint}
    (hlater : o.submitted.date < date)
    (hnone : ∀ d : Date, o.submitted.date < d → d < date →
      firstOpener? e.settings.calendar (Feed.seriesOf e.prices o.symbol) d = none)
    (hprint : firstOpener? e.settings.calendar (Feed.seriesOf e.prices o.symbol) date =
      some print)
    {past later : List (StepTaken S e.selector)} {s : StepTaken S e.selector}
    (hsplit : e.taken S fuel = past ++ s :: later) (hbefore : ∀ t ∈ past, t.now.time < print.time)
    (hreached : print.time ≤ s.now.time) (hdata : o.symbol ∈ s.requested)
    (hkept : s.before.status? o.id ≠ some .canceled) :
    s.Fills o.id ∧ o.status = .filled ∧
      ∃ last time,
        LastOpener e.settings.calendar (Feed.seriesOf e.prices o.symbol) s.now.time last time ∧
        date ≤ last.time.date ∧
        o.fillPrice = some (last.openIn e.settings.normalization) ∧ o.fillTime = some time ∧
        ((o.fillPrice = some (print.openIn e.settings.normalization) ∧
            o.fillTime = openingTime e.settings.calendar print) ↔
          ∀ q ∈ Feed.seriesOf e.prices o.symbol, q.time ≤ s.now.time →
            (openingTime e.settings.calendar q).isSome → q.time.date ≤ date) := by
  have hs : s ∈ e.taken S fuel := mem_of_split hsplit
  have hpast : ∀ t ∈ past, t ∈ e.taken S fuel := by
    intro t ht
    rw [hsplit]
    exact List.mem_append_left _ ht
  obtain ⟨hmem, hdate, opened, hopened⟩ := firstOpener?_sound hprint
  have hopens : (openingTime e.settings.calendar print).isSome :=
    Option.isSome_of_eq_some hopened
  have hafter : o.submitted.date < print.time.date := by
    rw [hdate]
    exact hlater
  have hsubmitted : o.submitted.time < s.now.time :=
    Int.lt_of_lt_of_le (DateTime.lt_of_date_lt hafter) hreached
  have hunfilled : ∀ t ∈ past, ¬ t.Fills o.id := fun t ht =>
    not_fills_before hsorted h ho htype hnone hprint (hpast t ht) (hbefore t ht)
  have hopen : s.before.status? o.id = some .submitted :=
    status?_eq_submitted h ho hsplit hsubmitted hunfilled hkept
  have hfills : s.Fills o.id :=
    fills_of_reached hsorted h ho htype hsplit hopen hdata hmem hopens hafter hreached
  obtain ⟨-, last, time, due, hopener, hprice, htime, -, -⟩ :=
    fill_eq_opening hsorted h ho htype hs hfills
  have hle : date ≤ last.time.date := by
    rw [← hdate]
    exact hopener.last print hmem hreached hopens
  refine ⟨hfills, (filled_iff_fills h ho).2 ⟨s, hs, hfills⟩, last, time, hopener, hle, hprice,
    htime, ?_⟩
  rw [hprice, htime]
  exact hopener.same_iff e.settings.normalization hprint hle

/-- A print at 110 at noon of the second date of the sample week. -/
def noonPrint : PricePoint :=
  ⟨.equity "SPY", .clock secondDate.date 12 0, 110000000, none, PricePoint.unitFactor⟩

/-- This print, and one at 120 at the first moment of the third date. -/
def lapsedPrints : List PricePoint :=
  [noonPrint,
    ⟨.equity "SPY", .midnight (.civil 2013 10 9), 120000000, none, PricePoint.unitFactor⟩]

/-- The daily run over these prints where every date has a session, all day long. -/
def lapsed : Engine :=
  { sample opener (.equity "SPY") [] with
    settings := { RunSettings.sample with resolution := .daily, calendar := .alwaysOn }
    prices := fun symbol => if symbol = .equity "SPY" then some lapsedPrints else none }

/-- The step of the third date reaches both prints, so it fills the order of the first date at the
second of them, although the session of the second date has a print. -/
theorem lapsed_filled :
    ∃ p o s, lapsed.after opener 5 = .ok p ∧ o ∈ p.state.kernel.book.orders ∧
      o.orderType = .marketOnOpen ∧ o.submitted.date < secondDate.date ∧
      firstOpener? .alwaysOn lapsedPrints secondDate.date = some noonPrint ∧
      s ∈ lapsed.taken opener 5 ∧ s.Fills o.id ∧ o.fillPrice = some 120000000 ∧
      ¬ (o.fillPrice = some (noonPrint.openIn .raw) ∧
        o.fillTime = openingTime .alwaysOn noonPrint) := by
  have horder : ((lapsed.after opener 5).toOption.bind fun p =>
      p.state.kernel.book.orders.head?).map (fun o =>
        (o.id, o.symbol, o.orderType, o.submitted.date.day, o.fillPrice)) =
        some (1, .equity "SPY", .marketOnOpen, 735147, some 120000000) := by
    decide +kernel
  have hstep : (lapsed.taken opener 5)[2]?.map (fun s =>
      (s.now.time, s.requested, s.before.status? 1)) =
        some (.midnight (.civil 2013 10 9), [.equity "SPY"], some .submitted) := by
    decide +kernel
  have hpast : ∀ time ∈ ((lapsed.taken opener 5).take 2).map (fun t => t.now.time),
      time < noonPrint.time := by
    decide +kernel
  have hprints : TimeSorted lapsedPrints := by
    unfold TimeSorted
    decide +kernel
  have hsorted : ∀ symbol, TimeSorted (Feed.seriesOf lapsed.prices symbol) :=
    Feed.timeSorted_single hprints (.equity "SPY")
  have hseries : Feed.seriesOf lapsed.prices (.equity "SPY") = lapsedPrints := by decide +kernel
  have hprint : firstOpener? .alwaysOn lapsedPrints secondDate.date = some noonPrint := by
    decide +kernel
  obtain ⟨p, o, hok, ho, hvalues⟩ := exists_order horder
  simp only [Prod.mk.injEq] at hvalues
  obtain ⟨hid, hsymbol, htype, hsubmitted, hprice⟩ := hvalues
  obtain ⟨s, hget, hvalues⟩ := Option.map_eq_some_iff.1 hstep
  simp only [Prod.mk.injEq] at hvalues
  obtain ⟨hnow, hdata, hstatus⟩ := hvalues
  have hlater : o.submitted.date < secondDate.date := by
    show o.submitted.date.day < secondDate.date.day
    rw [hsubmitted]
    decide
  -- There is no date between that of the submission and the next one.
  have hnone : ∀ d : Date, o.submitted.date < d → d < secondDate.date →
      firstOpener? .alwaysOn (Feed.seriesOf lapsed.prices o.symbol) d = none := by
    intro d hafter hbefore
    have hafter : o.submitted.date.day < d.day := hafter
    have hbefore : d.day < 735148 := hbefore
    omega
  have hbefore : ∀ t ∈ (lapsed.taken opener 5).take 2, t.now.time < noonPrint.time :=
    fun t ht => hpast _ (List.mem_map_of_mem ht)
  have hreached : noonPrint.time ≤ s.now.time := by
    rw [hnow]
    decide +kernel
  obtain ⟨hfills, -, last, time, -, -, -, -, hiff⟩ := filled_at_last_session hsorted hok ho htype
    hlater hnone (by rw [hsymbol, hseries]; exact hprint) (split_getElem? hget) hbefore hreached
    (by rw [hsymbol, hdata]; exact List.mem_cons_self) (by rw [hid, hstatus]; exact nofun)
  refine ⟨p, o, s, hok, ho, htype, hlater, hprint, List.mem_of_getElem? hget, hfills, hprice, ?_⟩
  intro hfirst
  -- The second print opens a session on a later date, and the step has reached it.
  have hsession : ∃ q ∈ lapsedPrints, q.time ≤ .midnight (.civil 2013 10 9) ∧
      (openingTime .alwaysOn q).isSome ∧ secondDate.date < q.time.date := by
    decide +kernel
  obtain ⟨q, hq, hqreached, hqopens, hqlater⟩ := hsession
  rw [hsymbol, hseries, hnow] at hiff
  exact Int.not_lt.2 (hiff.1 hfirst q hq hqreached hqopens) hqlater

end Engine

end MarketReplay
