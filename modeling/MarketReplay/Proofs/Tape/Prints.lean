import MarketReplay.Proofs.Calendar.Sessions
import MarketReplay.Proofs.Tape.AsOf

/-!
# The prints behind a quote

Whatever the order of its series, a feed quotes prints that are not later than its requests
(`Feed.Backed.slice`): the price of a quote is that of such a print, and so is the open of its
session (`Quote.Printed`). The time at which a print opens a session is not later than the print,
unless this is a bar stamped at midnight, before the session opens (`openingTime_le_or`).
-/

namespace MarketReplay

/-- A session does not close before it opens. -/
theorem Calendar.sessionOpen_le_sessionClose {c : Calendar} {d : Date} {opening close : DateTime}
    (hopening : c.sessionOpen d = some opening) (hclose : c.sessionClose d = some close) :
    opening ≤ close := by
  unfold sessionOpen at hopening
  unfold sessionClose at hclose
  split at hopening
  · rename_i htrade
    obtain rfl := Option.some.inj hopening
    rw [if_pos htrade] at hclose
    cases c with
    | alwaysOn =>
        obtain ⟨next, hnext, rfl⟩ := Option.map_eq_some_iff.1 hclose
        have hday := Date.next?_eq_some_iff.1 hnext
        exact Int.le_of_lt (DateTime.lt_of_date_lt (show d.day < next.day by omega))
    | exchangeWeekdays =>
        obtain rfl := Option.some.inj hclose
        have hopen : openTime.second = 34200 ∧ openTime.nanos = 0 := by decide
        have hshut : closeTime.second = 57600 ∧ closeTime.nanos = 0 := by decide
        show (d.day * 86400 + openTime.second) * 2000000000 + openTime.nanos ≤
          (d.day * 86400 + closeTime.second) * 2000000000 + closeTime.nanos
        rw [hopen.1, hopen.2, hshut.1, hshut.2]
        omega
  · cases hopening

/-- A print opens a session not after its own time, or it is a bar stamped at midnight, which opens
the session of its date when this opens. -/
theorem openingTime_le_or {calendar : Calendar} {p : PricePoint} {time : DateTime}
    (h : openingTime calendar p = some time) :
    time ≤ p.time ∨ p.openPrice.isSome ∧ p.time = .midnight p.time.date ∧
      calendar.sessionOpen p.time.date = some time := by
  unfold openingTime at h
  split at h
  · obtain rfl := Option.some.inj h
    exact .inl (Int.le_refl _)
  · split at h
    · cases h
    · rename_i hbar
      split at h
      · cases h
      · rename_i close hclose
        split at h
        · rename_i hstamp
          rw [Bool.or_eq_true, decide_eq_true_eq, decide_eq_true_eq] at hstamp
          rcases hstamp with hmidnight | hclosed
          · refine .inr ⟨?_, ?_, h⟩
            · rwa [Option.isNone_iff_eq_none, ← ne_eq, Option.ne_none_iff_isSome] at hbar
            · show p.time = ⟨p.time.date, TimeOfDay.midnight⟩
              rw [← hmidnight]
          · exact .inl (Int.le_trans (Calendar.sessionOpen_le_sessionClose h hclose) hclosed)
        · cases h

/-- Whether a quote is made of prints of a series up to a moment: its price is that of one, and its
session, if it has one, was opened by one. -/
structure Quote.Printed (calendar : Calendar) (mode : Normalization) (series : List PricePoint)
    (moment : DateTime) (quote : Quote) : Prop where
  price : ∃ p ∈ series, p.time ≤ moment ∧ quote.time = p.time ∧ quote.price = p.priceIn mode
  opening : ∀ o, quote.sessionOpen = some o → ∃ p ∈ series, p.time ≤ moment ∧
    openingTime calendar p = some o.time ∧ o.price = p.openIn mode

section Printed

variable {calendar : Calendar} {mode : Normalization} {series : List PricePoint}
  {moment now : DateTime}

/-- Prints up to a moment are prints up to a later one. -/
theorem Quote.Printed.mono {quote : Quote} (h : quote.Printed calendar mode series moment)
    (hle : moment ≤ now) : quote.Printed calendar mode series now := by
  obtain ⟨p, hp, htime, hvalues⟩ := h.price
  refine ⟨⟨p, hp, Int.le_trans htime hle, hvalues⟩, fun o ho => ?_⟩
  obtain ⟨p, hp, htime, hvalues⟩ := h.opening o ho
  exact ⟨p, hp, Int.le_trans htime hle, hvalues⟩

namespace Cursor

/-- A quote keeps its session, unless one more print opens another. -/
theorem sessionOpen_absorb_or (calendar : Calendar) (mode : Normalization) (last : Option Quote)
    (p : PricePoint) :
    (absorb calendar mode last p).sessionOpen = last.bind Quote.sessionOpen ∨
      ∃ time, openingTime calendar p = some time ∧
        (absorb calendar mode last p).sessionOpen = some ⟨p.time.date, time, p.openIn mode⟩ := by
  unfold absorb
  cases htime : openingTime calendar p with
  | none => exact .inl rfl
  | some time =>
      simp only
      split
      · split
        · exact .inr ⟨time, rfl, rfl⟩
        · exact .inl rfl
      · split
        · exact .inr ⟨time, rfl, rfl⟩
        · exact .inl rfl

/-- One more print up to a moment makes a quote of such prints. -/
theorem absorb_printed {last : Option Quote} {p : PricePoint}
    (hlast : ∀ quote, last = some quote → quote.Printed calendar mode series moment)
    (hp : p ∈ series) (hle : p.time ≤ moment) :
    (absorb calendar mode last p).Printed calendar mode series moment := by
  have hearlier : ∀ o, last.bind Quote.sessionOpen = some o → ∃ p ∈ series, p.time ≤ moment ∧
      openingTime calendar p = some o.time ∧ o.price = p.openIn mode := by
    intro o ho
    obtain ⟨quote, hquote, hsession⟩ := Option.bind_eq_some_iff.1 ho
    exact (hlast quote hquote).opening o hsession
  refine ⟨⟨p, hp, hle, rfl, rfl⟩, fun o ho => ?_⟩
  rcases sessionOpen_absorb_or calendar mode last p with hsame | ⟨time, htime, hopens⟩
  · rw [hsame] at ho
    exact hearlier o ho
  · rw [hopens] at ho
    obtain rfl := Option.some.inj ho
    exact ⟨p, hp, hle, htime, rfl⟩

/-- A cursor over prints of a series leaves prints of the series, and its quote is made of those up
to the moment of the request. -/
theorem advance_printed {points : List PricePoint} {last : Option Quote}
    (hlast : ∀ quote, last = some quote → quote.Printed calendar mode series now)
    (hpoints : ∀ p ∈ points, p ∈ series) :
    (∀ p ∈ (advance calendar mode now points last).rest, p ∈ series) ∧
      ∀ quote, (advance calendar mode now points last).last = some quote →
        quote.Printed calendar mode series now := by
  induction points generalizing last with
  | nil => exact ⟨fun _ hp => absurd hp List.not_mem_nil, hlast⟩
  | cons p rest ih =>
      obtain ⟨hp, hrest⟩ := List.forall_mem_cons.1 hpoints
      rw [advance]
      by_cases hlate : now < p.time
      · rw [if_pos hlate]
        exact ⟨hpoints, hlast⟩
      · rw [if_neg hlate]
        refine ih (fun quote hquote => ?_) hrest
        obtain rfl := Option.some.inj hquote
        exact absorb_printed hlast hp (Int.not_lt.1 hlate)

end Cursor

end Printed

namespace Feed

variable {prices : SeriesLookup} {calendar : Calendar} {mode : Normalization}
  {moment now : DateTime} {f : Feed}

/-- Whether all that a feed still has to read are prints of the series of a source, and its last
quotes are made of such prints up to a moment. -/
structure Backed (prices : SeriesLookup) (calendar : Calendar) (mode : Normalization)
    (moment : DateTime) (f : Feed) : Prop where
  calendar_eq : f.calendar = calendar
  mode_eq : f.mode = mode
  ahead_mem : ∀ s, ∀ p ∈ f.ahead s, p ∈ seriesOf prices s
  last_printed : ∀ s quote, f.last s = some quote →
    quote.Printed calendar mode (seriesOf prices s) moment

namespace Backed

/-- A feed that starts has read nothing. -/
theorem start (prices : SeriesLookup) (calendar : Calendar) (mode : Normalization)
    (moment : DateTime) : Backed prices calendar mode moment (.start prices calendar mode) := by
  refine ⟨rfl, rfl, fun s p hp => ?_, fun s quote hquote => ?_⟩
  · rwa [ahead_start] at hp
  · rw [last_start] at hquote
    cases hquote

theorem mono (h : Backed prices calendar mode moment f) (hle : moment ≤ now) :
    Backed prices calendar mode now f :=
  ⟨h.calendar_eq, h.mode_eq, h.ahead_mem, fun s quote hquote =>
    (h.last_printed s quote hquote).mono hle⟩

/-- A request is answered by prints up to its moment. -/
theorem request (h : Backed prices calendar mode now f) (symbol : Symbol) :
    Backed prices calendar mode now (f.request symbol now).2 ∧
      ∀ quote, (f.request symbol now).1 = some quote →
        quote.Printed calendar mode (seriesOf prices symbol) now := by
  obtain ⟨hrest, hlast⟩ := Cursor.advance_printed (h.last_printed symbol) (h.ahead_mem symbol)
  rw [← h.calendar_eq, ← h.mode_eq] at hrest hlast
  obtain ⟨hcalendar, hmode⟩ := f.request_modes symbol now
  refine ⟨⟨hcalendar.trans h.calendar_eq, hmode.trans h.mode_eq, fun s p hp => ?_,
    fun s quote hquote => ?_⟩, fun quote hquote => ?_⟩
  · rw [ahead_request] at hp
    split at hp
    · rename_i hs
      rw [hs]
      exact hrest p hp
    · exact h.ahead_mem s p hp
  · rw [last_request] at hquote
    split at hquote
    · rename_i hs
      rw [hs, ← h.calendar_eq, ← h.mode_eq]
      exact hlast quote hquote
    · exact h.last_printed s quote hquote
  · rw [request_fst] at hquote
    rw [← h.calendar_eq, ← h.mode_eq]
    exact hlast quote hquote

/-- Requests in turn add quotes of prints up to the instant of the slice. -/
theorem collect (symbols : List Symbol) {slice : DataSlice} (hnow : slice.instant.time = now)
    (h : Backed prices calendar mode now f)
    (hslice : ∀ s quote, slice.get? s = some quote →
      quote.Printed calendar mode (seriesOf prices s) now) :
    Backed prices calendar mode now (f.collect slice symbols).2 ∧
      ∀ s quote, (f.collect slice symbols).1.get? s = some quote →
        quote.Printed calendar mode (seriesOf prices s) now := by
  induction symbols generalizing f slice with
  | nil => exact ⟨h, hslice⟩
  | cons symbol rest ih =>
      obtain ⟨hfeed, hquote⟩ := h.request symbol
      rw [collect_cons, hnow]
      refine ih ?_ hfeed fun s quote hs => ?_
      · rw [instant_withQuote]
        exact hnow
      · rw [get?_withQuote] at hs
        split at hs
        · rename_i hsymbol
          rcases Option.or_eq_some_iff.1 hs with hanswer | ⟨-, hbefore⟩
          · rw [hsymbol]
            exact hquote quote hanswer
          · exact hslice s quote hbefore
        · exact hslice s quote hs

/-- The quotes of a slice are made of prints up to its instant. -/
theorem slice {instant : Instant} (h : Backed prices calendar mode instant.time f)
    (symbols : List Symbol) :
    Backed prices calendar mode instant.time (f.slice instant symbols).2 ∧
      ∀ s quote, (f.slice instant symbols).1.get? s = some quote →
        quote.Printed calendar mode (seriesOf prices s) instant.time := by
  have hempty : (DataSlice.emptyAt instant).instant.time = instant.time := rfl
  exact h.collect symbols hempty fun s quote hquote => by cases hquote

end Backed

end Feed

end MarketReplay
