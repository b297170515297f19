import MarketReplay.Proofs.Run.OpeningFills

/-!
# The session that an order for the opening waits for

The search for the next session succeeds after every date but the last ones of the calendar, in all
years (`Calendar.next_session_found`): it gives the least trading day after the date and the opening
of that day, and no session opens before that one once the date is over. So an order for the opening
that is submitted on such a date is due at a session, and a quote with that session or a later one
fills it.
-/

namespace MarketReplay.Calendar

/-- A date that ten more follow has a next trading day, the least of the later ones. -/
theorem exists_nextTradingDay (c : Calendar) {d : Date}
    (hspan : d.day + searchSpan ≤ Civil.lastDay) :
    ∃ next, c.nextTradingDay d = some next ∧ d < next ∧ c.isTradingDay next ∧
      ∀ x : Date, d < x → c.isTradingDay x → next ≤ x := by
  have hten : (searchSpan : Int) = 10 := rfl
  have hstart : Civil.firstDay ≤ d.day + 1 := Int.le_trans d.first_le (by omega)
  obtain ⟨y, hy, -, hytrade⟩ := c.exists_isTradingDay_within_week hstart (by omega)
  have hlater : d < y := show d.day < y.day by omega
  obtain ⟨next, hnext, hafter, -, htrade, hclosed⟩ := nextTradingDay_of_lt hytrade hlater
  refine ⟨next, hnext, hafter, htrade, fun x hx hxtrade => Int.not_lt.1 fun hbefore => ?_⟩
  rw [hclosed x hx hbefore] at hxtrade
  cases hxtrade

/-- On a later date no session opens before that of the least later trading day. -/
theorem sessionOpen_le_of_least {c : Calendar} {d next x : Date} {due opening : DateTime}
    (hleast : ∀ x : Date, d < x → c.isTradingDay x → next ≤ x)
    (hdue : c.sessionOpen next = some due) (hopening : c.sessionOpen x = some opening)
    (hx : d < x) : due ≤ opening := by
  have hle : next.day ≤ x.day := hleast x hx (sessionOpen_eq hopening).1
  rcases Int.lt_or_eq_of_le hle with hlt | hsame
  · exact Int.le_of_lt (sessionOpen_lt hlt hdue hopening)
  · rw [Date.ext_day hsame, hopening] at hdue
    obtain rfl := Option.some.inj hdue
    exact Int.le_refl _

/-- After a date that ten more follow, in any year, the next trading day is the least later one and
the next session opens on it; no session of a later date opens before that. An order for the opening
that is submitted on the date is filled by the quotes that have this session or a later one, and by
no others. -/
theorem next_session_found (c : Calendar) {d : Date}
    (hspan : d.day + searchSpan ≤ Civil.lastDay) :
    ∃ next due,
      (c.nextTradingDay d = some next ∧ d < next ∧ c.isTradingDay next ∧
        ∀ x : Date, d < x → c.isTradingDay x → next ≤ x) ∧
      (c.nextSessionOpen d = some due ∧ c.sessionOpen next = some due ∧
        ∀ x opening, c.sessionOpen x = some opening → d < opening.date → due ≤ opening) ∧
      ∀ (order : Order) (quote : Quote) (price : Int) (time : DateTime),
        order.orderType = .marketOnOpen → order.submitted.date = d →
        (OrderBook.fillBy c order quote = some (price, time) ↔
          ∃ session, quote.sessionOpen = some session ∧ due ≤ session.time ∧
            session.price = price ∧ session.time = time) := by
  obtain ⟨next, hnext, hafter, htrade, hleast⟩ := c.exists_nextTradingDay hspan
  obtain ⟨due, hdue⟩ := exists_sessionOpen htrade
  have hsession : c.nextSessionOpen d = some due := by
    rw [nextSessionOpen, hnext, Option.bind_some, hdue]
  refine ⟨next, due, ⟨hnext, hafter, htrade, hleast⟩, ⟨hsession, hdue, ?_⟩, ?_⟩
  · intro x opening hopening hx
    rw [(sessionOpen_eq hopening).2] at hx
    exact sessionOpen_le_of_least hleast hdue hopening hx
  · intro order quote price time htype hsubmitted
    rw [OrderBook.fillBy_marketOnOpen htype, hsubmitted, hsession]
    constructor
    · rintro ⟨due', session, hdue', hquote, hreached, hprice, htime⟩
      obtain rfl := Option.some.inj hdue'
      exact ⟨session, hquote, hreached, hprice, htime⟩
    · rintro ⟨session, hquote, hreached, hprice, htime⟩
      exact ⟨due, session, rfl, hquote, hreached, hprice, htime⟩

/-- Thursday before Easter 2024: Good Friday and the weekend are closed, so the next session is that
of Monday April 1. Before year 0 the search succeeds too, from the first date of the calendar on. -/
theorem easter_weekend_session :
    (Date.civil 2024 3 28).day + searchSpan ≤ Civil.lastDay ∧
    (∃ next due, exchangeWeekdays.nextTradingDay (Date.civil 2024 3 28) = some next ∧
      next = Date.civil 2024 4 1 ∧
      exchangeWeekdays.nextSessionOpen (Date.civil 2024 3 28) = some due ∧
      due = DateTime.clock (Date.civil 2024 4 1) 9 30) ∧
    ∃ next, exchangeWeekdays.nextTradingDay Date.first = some next := by
  have hspan : (Date.civil 2024 3 28).day + searchSpan ≤ Civil.lastDay := by decide
  obtain ⟨next, due, ⟨hnext, -⟩, ⟨hdue, -⟩, -⟩ := next_session_found exchangeWeekdays hspan
  have hnextValue : exchangeWeekdays.nextTradingDay (Date.civil 2024 3 28) =
      some (Date.civil 2024 4 1) := by decide +kernel
  have hdueValue : exchangeWeekdays.nextSessionOpen (Date.civil 2024 3 28) =
      some (DateTime.clock (Date.civil 2024 4 1) 9 30) := by decide +kernel
  obtain ⟨first, -, ⟨hfirst, -⟩, -⟩ :=
    next_session_found exchangeWeekdays (by decide : Date.first.day + searchSpan ≤ Civil.lastDay)
  exact ⟨hspan, ⟨next, due, hnext, Option.some.inj (hnext.symm.trans hnextValue), hdue,
    Option.some.inj (hdue.symm.trans hdueValue)⟩, first, hfirst⟩

end MarketReplay.Calendar
