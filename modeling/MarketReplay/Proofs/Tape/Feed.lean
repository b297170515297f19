import Mathlib.Data.List.Basic
import MarketReplay.Tape.Feed
import MarketReplay.Tape.Source

/-!
# What a feed has read

The series of a price source are sorted by time (`PriceSource.timeSorted_sortAll`). A cursor over a
sorted series has absorbed exactly the points that are not later than its last request
(`Cursor.advance_eq_filter`). So two feeds whose series agree on the points up to a moment answer
alike up to this moment (`Feed.Agree.slice`).
-/

namespace MarketReplay

/-- Whether points are in the order of time. -/
def TimeSorted (points : List PricePoint) : Prop := points.Pairwise fun a b => a.time ≤ b.time

/-- The points that are not later than a moment. -/
def upTo (moment : DateTime) (points : List PricePoint) : List PricePoint :=
  points.filter fun p => p.time ≤ moment

/-- Points up to a moment, of those up to a later one. -/
theorem upTo_upTo {earlier later : DateTime} (h : earlier ≤ later) (points : List PricePoint) :
    upTo earlier (upTo later points) = upTo earlier points := by
  unfold upTo
  rw [List.filter_filter]
  refine List.filter_congr fun p _ => ?_
  have hp : p.time ≤ earlier → p.time ≤ later := fun hp => Int.le_trans hp h
  by_cases hearlier : p.time ≤ earlier
  · simp [hearlier, hp hearlier]
  · simp [hearlier]

/-- The series of a sorted source are in the order of time. -/
theorem PriceSource.timeSorted_sortAll (src : PriceSource) (symbol : Symbol) :
    TimeSorted ((src.sortAll.seriesOf symbol).getD []) := by
  have hlookup : src.sortAll.seriesOf symbol = (src.seriesOf symbol).map sortByTime :=
    SortedMap.get?_mapValues src.series _ symbol
  rw [hlookup]
  cases src.seriesOf symbol with
  | none => exact .nil
  | some points =>
      have hsorted : (sortByTime points).Pairwise fun a b => decide (a.time ≤ b.time) = true := by
        refine List.pairwise_mergeSort (fun a b c hab hbc => ?_) (fun a b => ?_) points
        · exact decide_eq_true (Int.le_trans (of_decide_eq_true hab) (of_decide_eq_true hbc))
        · rw [Bool.or_eq_true, decide_eq_true_eq, decide_eq_true_eq]
          exact Int.le_total a.time.stamp b.time.stamp
      exact hsorted.imp of_decide_eq_true

namespace Cursor

variable {calendar : Calendar} {mode : Normalization}

/-- A cursor over a sorted series leaves the points that are later, and has absorbed the others in
their order. -/
theorem advance_eq_filter (now : DateTime) {points : List PricePoint} (last : Option Quote)
    (h : TimeSorted points) :
    advance calendar mode now points last =
      ⟨points.filter fun p => now < p.time,
        (upTo now points).foldl (fun last p => some (absorb calendar mode last p)) last⟩ := by
  induction points generalizing last with
  | nil => rfl
  | cons p rest ih =>
      obtain ⟨hp, hrest⟩ := List.pairwise_cons.1 h
      rw [advance]
      by_cases hlate : now < p.time
      · -- The cursor stops here, and so it should: every point behind `p` is as late or later.
        have hlater : ∀ q ∈ p :: rest, now < q.time := by
          intro q hq
          obtain rfl | hq := List.mem_cons.1 hq
          · exact hlate
          · exact Int.lt_of_lt_of_le hlate (hp q hq)
        have hall : (p :: rest).filter (fun q => now < q.time) = p :: rest :=
          List.filter_eq_self.2 fun q hq => decide_eq_true (hlater q hq)
        have hnone : upTo now (p :: rest) = [] :=
          List.filter_eq_nil_iff.2 fun q hq hle =>
            absurd (hlater q hq) (Int.not_lt.2 (of_decide_eq_true hle))
        rw [if_pos hlate, hall, hnone]
        rfl
      · have hle : p.time ≤ now := Int.not_lt.1 hlate
        rw [if_neg hlate, ih _ hrest]
        simp [upTo, hlate, hle]

end Cursor

namespace Feed

/-- The points of a symbol that a feed has not read. -/
def ahead (f : Feed) (symbol : Symbol) : List PricePoint :=
  match f.cursor? symbol with
  | none => []
  | some c => c.rest

/-- The last quote of a symbol that a feed gave. -/
def last (f : Feed) (symbol : Symbol) : Option Quote :=
  match f.cursor? symbol with
  | none => none
  | some c => c.last

/-- A feed that starts has read nothing. -/
theorem ahead_start (source : SeriesLookup) (calendar : Calendar) (mode : Normalization)
    (symbol : Symbol) :
    (Feed.start source calendar mode).ahead symbol = (source symbol).getD [] := by
  unfold ahead cursor? Feed.start
  cases hseries : source symbol <;> simp [hseries]

/-- A feed that starts has given no quote. -/
theorem last_start (source : SeriesLookup) (calendar : Calendar) (mode : Normalization)
    (symbol : Symbol) : (Feed.start source calendar mode).last symbol = none := by
  unfold last cursor? Feed.start
  cases hseries : source symbol <;> simp [hseries]

/-- The cursor of a symbol after a request. -/
def advanced (f : Feed) (symbol : Symbol) (now : DateTime) : Cursor :=
  Cursor.advance f.calendar f.mode now (f.ahead symbol) (f.last symbol)

/-- A request answers with the last quote of the advanced cursor. -/
theorem request_fst (f : Feed) (symbol : Symbol) (now : DateTime) :
    (f.request symbol now).1 = (f.advanced symbol now).last := by
  unfold request advanced ahead last
  cases f.cursor? symbol <;> rfl

/-- A request leaves calendar and normalization alone. -/
theorem request_modes (f : Feed) (symbol : Symbol) (now : DateTime) :
    (f.request symbol now).2.calendar = f.calendar ∧ (f.request symbol now).2.mode = f.mode := by
  unfold request
  cases f.cursor? symbol <;> exact ⟨rfl, rfl⟩

/-- A request advances the cursor of its symbol and no other. -/
theorem cursor?_request (f : Feed) (symbol other : Symbol) (now : DateTime) :
    (f.request symbol now).2.cursor? other =
      if other = symbol then (f.cursor? symbol).map fun _ => f.advanced symbol now
      else f.cursor? other := by
  unfold request advanced ahead last
  cases hcursor : f.cursor? symbol with
  | none =>
      by_cases heq : other = symbol
      · simp [heq, hcursor]
      · simp [heq]
  | some c =>
      have hsource : (f.source symbol).isSome := by
        unfold cursor? at hcursor
        cases hsource : f.source symbol <;> simp [hsource] at hcursor ⊢
      obtain ⟨series, hseries⟩ := Option.isSome_iff_exists.1 hsource
      unfold cursor?
      simp only [SortedMap.get?_insert]
      by_cases heq : other = symbol
      · simp [heq, hseries]
      · simp [heq]

/-- The points not read and the last quote, after a request. -/
theorem ahead_request (f : Feed) (symbol other : Symbol) (now : DateTime) :
    (f.request symbol now).2.ahead other =
      if other = symbol then (f.advanced symbol now).rest else f.ahead other := by
  unfold ahead
  rw [cursor?_request]
  by_cases heq : other = symbol
  · unfold advanced ahead last
    cases hcursor : f.cursor? symbol <;> simp [heq, Cursor.advance]
  · rw [if_neg heq, if_neg heq]

/-- The last quote of a symbol, after a request. -/
theorem last_request (f : Feed) (symbol other : Symbol) (now : DateTime) :
    (f.request symbol now).2.last other =
      if other = symbol then (f.advanced symbol now).last else f.last other := by
  unfold last
  rw [cursor?_request]
  by_cases heq : other = symbol
  · unfold advanced ahead last
    cases hcursor : f.cursor? symbol <;> simp [heq, Cursor.advance]
  · rw [if_neg heq, if_neg heq]

/-- The slice with a quote of a symbol, if there is one. -/
def withQuote (slice : DataSlice) (symbol : Symbol) : Option Quote → DataSlice
  | none => slice
  | some quote => slice.insert symbol quote

theorem instant_withQuote (slice : DataSlice) (symbol : Symbol) (quote : Option Quote) :
    (withQuote slice symbol quote).instant = slice.instant := by
  cases quote <;> rfl

/-- The new quote of a symbol replaces an earlier one. -/
theorem get?_withQuote (slice : DataSlice) (symbol s : Symbol) (quote : Option Quote) :
    (withQuote slice symbol quote).get? s =
      if s = symbol then quote.or (slice.get? s) else slice.get? s := by
  cases quote with
  | none =>
      show slice.get? s = _
      split <;> rfl
  | some q => exact SortedMap.get?_insert slice.quotes symbol s q

/-- Requests in turn: the quote of the first one goes into the slice. -/
theorem collect_cons (f : Feed) (slice : DataSlice) (symbol : Symbol) (rest : List Symbol) :
    f.collect slice (symbol :: rest) =
      (f.request symbol slice.instant.time).2.collect
        (withQuote slice symbol (f.request symbol slice.instant.time).1) rest := by
  rw [collect]
  cases f.request symbol slice.instant.time with
  | mk quote f' => cases quote <;> rfl

/-- Two feeds that have given the same quotes so far, and have the same points up to a moment before
them. -/
structure Agree (moment : DateTime) (f g : Feed) : Prop where
  calendar_eq : g.calendar = f.calendar
  mode_eq : g.mode = f.mode
  last_eq : ∀ symbol, g.last symbol = f.last symbol
  upTo_eq : ∀ symbol, upTo moment (g.ahead symbol) = upTo moment (f.ahead symbol)
  sorted : ∀ symbol, TimeSorted (f.ahead symbol)
  sorted' : ∀ symbol, TimeSorted (g.ahead symbol)

namespace Agree

variable {moment : DateTime} {f g : Feed}

/-- Up to the moment cursors advance alike. -/
theorem advanced_eq (h : Agree moment f g) (symbol : Symbol) {now : DateTime}
    (hnow : now ≤ moment) :
    (g.advanced symbol now).last = (f.advanced symbol now).last ∧
      upTo moment (g.advanced symbol now).rest = upTo moment (f.advanced symbol now).rest := by
  -- What is read now is part of the points up to the moment, which are the same.
  have hread : upTo now (g.ahead symbol) = upTo now (f.ahead symbol) := by
    rw [← upTo_upTo hnow, h.upTo_eq, upTo_upTo hnow]
  unfold advanced
  rw [Cursor.advance_eq_filter _ _ (h.sorted symbol),
    Cursor.advance_eq_filter _ _ (h.sorted' symbol), h.calendar_eq, h.mode_eq, h.last_eq, hread]
  refine ⟨rfl, ?_⟩
  have hahead := h.upTo_eq symbol
  simp only [upTo] at hahead ⊢
  rw [List.filter_comm, hahead, List.filter_comm]

/-- A cursor over a sorted series leaves a sorted rest. -/
theorem sorted_advanced {f : Feed} {symbol : Symbol} (h : TimeSorted (f.ahead symbol))
    (now : DateTime) : TimeSorted (f.advanced symbol now).rest := by
  unfold advanced
  rw [Cursor.advance_eq_filter _ _ h]
  exact h.filter _

/-- A request up to the moment is answered alike, and the feeds agree after it. -/
theorem request (h : Agree moment f g) (symbol : Symbol) {now : DateTime} (hnow : now ≤ moment) :
    (g.request symbol now).1 = (f.request symbol now).1 ∧
      Agree moment (f.request symbol now).2 (g.request symbol now).2 := by
  obtain ⟨hlast, hrest⟩ := h.advanced_eq symbol hnow
  obtain ⟨hfc, hfm⟩ := f.request_modes symbol now
  obtain ⟨hgc, hgm⟩ := g.request_modes symbol now
  refine ⟨?_, ?_, ?_, fun other => ?_, fun other => ?_, fun other => ?_, fun other => ?_⟩
  · rw [request_fst, request_fst, hlast]
  · rw [hfc, hgc, h.calendar_eq]
  · rw [hfm, hgm, h.mode_eq]
  · rw [last_request, last_request, hlast, h.last_eq]
  · rw [ahead_request, ahead_request]
    split
    · exact hrest
    · exact h.upTo_eq other
  · rw [ahead_request]
    split
    · exact sorted_advanced (h.sorted symbol) now
    · exact h.sorted other
  · rw [ahead_request]
    split
    · exact sorted_advanced (h.sorted' symbol) now
    · exact h.sorted' other

/-- Requests up to the moment add the same quotes to a slice, and the feeds agree after them. -/
theorem collect (h : Agree moment f g) (symbols : List Symbol) {slice : DataSlice}
    (hslice : slice.instant.time ≤ moment) :
    (g.collect slice symbols).1 = (f.collect slice symbols).1 ∧
      Agree moment (f.collect slice symbols).2 (g.collect slice symbols).2 := by
  induction symbols generalizing f g slice with
  | nil => exact ⟨rfl, h⟩
  | cons symbol rest ih =>
      obtain ⟨hquote, hagree⟩ := h.request symbol hslice
      rw [Feed.collect, Feed.collect]
      cases hf : f.request symbol slice.instant.time with
      | mk quote f' =>
          cases hg : g.request symbol slice.instant.time with
          | mk quote' g' =>
              rw [hf, hg] at hquote hagree
              obtain rfl : quote' = quote := hquote
              cases quote' with
              | none => exact ih hagree hslice
              | some q => exact ih hagree hslice

/-- Up to the moment slices are the same, and the feeds agree after them. -/
theorem slice (h : Agree moment f g) {now : Instant} (hnow : now.time ≤ moment)
    (symbols : List Symbol) :
    (g.slice now symbols).1 = (f.slice now symbols).1 ∧
      Agree moment (f.slice now symbols).2 (g.slice now symbols).2 :=
  h.collect symbols hnow

/-- Feeds that start on sorted series with the same points up to a moment agree. -/
theorem start {prices other : SeriesLookup} (calendar : Calendar) (mode : Normalization)
    (hsorted : ∀ symbol, TimeSorted ((prices symbol).getD []))
    (hsorted' : ∀ symbol, TimeSorted ((other symbol).getD []))
    (hupTo : ∀ symbol, upTo moment ((other symbol).getD []) =
      upTo moment ((prices symbol).getD [])) :
    Agree moment (Feed.start prices calendar mode) (Feed.start other calendar mode) := by
  refine ⟨rfl, rfl, fun symbol => ?_, fun symbol => ?_, fun symbol => ?_, fun symbol => ?_⟩
  · rw [last_start, last_start]
  · rw [ahead_start, ahead_start, hupTo]
  · rw [ahead_start]
    exact hsorted symbol
  · rw [ahead_start]
    exact hsorted' symbol

end Agree

end Feed

end MarketReplay
