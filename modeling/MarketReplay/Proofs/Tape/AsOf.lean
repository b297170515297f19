import Mathlib.Data.List.Induction
import MarketReplay.Proofs.Civil.Moments
import MarketReplay.Proofs.Tape.Feed

/-!
# Quotes as of a moment

The quote of a feed is a function of the part of the series that was reached: `Quote.asOf` of the
points up to the latest instant at which the symbol was requested, whatever the other requests were
(`Feed.slice_eq_asOf`). The cursor computes it point by point, because one more point in the order
of time changes the opening of the last session at most once a date (`lastSession_concat`).
-/

namespace MarketReplay

/-! ### Openings of sessions -/

/-- The opening that a print can stand for. -/
def PricePoint.opening? (calendar : Calendar) (mode : Normalization) (p : PricePoint) :
    Option SessionOpening :=
  (openingTime calendar p).map fun time => ⟨p.time.date, time, p.openIn mode⟩

/-- Of openings in the order of their dates, the first one on the last date. -/
def lastSession (openings : List SessionOpening) : Option SessionOpening :=
  openings.getLast?.bind fun last => openings.find? fun o => o.date = last.date

/-- Whether openings are in the order of their dates. -/
def DateSorted (openings : List SessionOpening) : Prop :=
  openings.Pairwise fun a b => a.date.day ≤ b.date.day

/-- An opening on a date later than those of others is that of the last session; one on the last
date comes after the opening of its session. -/
theorem lastSession_concat {openings : List SessionOpening} {o : SessionOpening}
    (h : DateSorted (openings ++ [o])) :
    lastSession (openings ++ [o]) =
      match lastSession openings with
      | none => some o
      | some e => if e.date = o.date then some e else some o := by
  have hnew : lastSession (openings ++ [o]) =
      (openings.find? fun x => x.date = o.date).or (some o) := by
    unfold lastSession
    rw [List.getLast?_concat, Option.bind_some, List.find?_append]
    simp
  rw [hnew]
  rcases List.eq_nil_or_concat openings with rfl | ⟨init, last, rfl⟩
  · rfl
  · rw [List.concat_eq_append] at h ⊢
    obtain ⟨hsorted, -, hlater⟩ := List.pairwise_append.1 h
    obtain ⟨-, -, hearlier⟩ := List.pairwise_append.1 hsorted
    unfold lastSession
    rw [List.getLast?_concat, Option.bind_some]
    cases hfirst : (init ++ [last]).find? fun x => x.date = last.date with
    | none =>
        have hlast := List.find?_eq_none.1 hfirst last (by simp)
        simp at hlast
    | some e =>
        have hdate : e.date = last.date := by simpa using List.find?_some hfirst
        simp only [hdate]
        by_cases hsame : last.date = o.date
        · rw [if_pos hsame, ← hsame, hfirst]
          rfl
        · rw [if_neg hsame]
          -- An opening on the date of `o` would have `last` between it and `o`.
          have hnone : ((init ++ [last]).find? fun x => x.date = o.date) = none := by
            refine List.find?_eq_none.2 fun x hx => ?_
            rw [decide_eq_true_eq]
            intro hxo
            have hxl : x.date.day ≤ last.date.day := by
              rcases List.mem_append.1 hx with hx | hx
              · exact hearlier x hx last List.mem_cons_self
              · obtain rfl := List.mem_singleton.1 hx
                exact Int.le_refl _
            have hlo := hlater last (by simp) o List.mem_cons_self
            rw [hxo] at hxl
            exact hsame (Date.ext_day (Int.le_antisymm hlo hxl))
          rw [hnone]
          rfl

/-! ### The quote of a series -/

/-- The quote of points in the order of time: time and price of the last one, and the first opening
on the last date that has one. -/
def Quote.asOf (calendar : Calendar) (mode : Normalization) (points : List PricePoint) :
    Option Quote :=
  points.getLast?.map fun p =>
    ⟨p.time, p.priceIn mode, lastSession (points.filterMap (PricePoint.opening? calendar mode))⟩

variable {calendar : Calendar} {mode : Normalization}

/-- The openings of points in the order of time are in the order of their dates. -/
theorem TimeSorted.openings {points : List PricePoint} (h : TimeSorted points)
    (calendar : Calendar) (mode : Normalization) :
    DateSorted (points.filterMap (PricePoint.opening? calendar mode)) := by
  refine List.Pairwise.filterMap (PricePoint.opening? calendar mode) ?_ h
  intro p q hpq o ho o' ho'
  obtain ⟨time, -, rfl⟩ := Option.map_eq_some_iff.1 ho
  obtain ⟨time', -, rfl⟩ := Option.map_eq_some_iff.1 ho'
  exact DateTime.day_le hpq

/-- The session opening of a quote is that of its points. -/
theorem Quote.sessionOpen_asOf (points : List PricePoint) :
    (asOf calendar mode points).bind sessionOpen =
      lastSession (points.filterMap (PricePoint.opening? calendar mode)) := by
  unfold asOf
  cases hlast : points.getLast? with
  | none =>
      obtain rfl := List.getLast?_eq_none_iff.1 hlast
      rfl
  | some p => rfl

/-- One more point is absorbed by the quote of the points before it. -/
theorem Quote.asOf_concat {points : List PricePoint} {p : PricePoint}
    (h : TimeSorted (points ++ [p])) :
    asOf calendar mode (points ++ [p]) =
      some (Cursor.absorb calendar mode (asOf calendar mode points) p) := by
  have hsession : lastSession ((points ++ [p]).filterMap (PricePoint.opening? calendar mode)) =
      (Cursor.absorb calendar mode (asOf calendar mode points) p).sessionOpen := by
    unfold Cursor.absorb
    rw [sessionOpen_asOf]
    have hsorted := h.openings calendar mode
    rw [List.filterMap_append] at hsorted ⊢
    cases htime : openingTime calendar p with
    | none =>
        have hnone : [p].filterMap (PricePoint.opening? calendar mode) = [] := by
          simp [PricePoint.opening?, htime]
        rw [hnone, List.append_nil]
    | some time =>
        have hone : [p].filterMap (PricePoint.opening? calendar mode) =
            [⟨p.time.date, time, p.openIn mode⟩] := by
          simp [PricePoint.opening?, htime]
        rw [hone] at hsorted ⊢
        rw [lastSession_concat hsorted]
        cases lastSession (points.filterMap (PricePoint.opening? calendar mode)) with
        | none => rfl
        | some e => by_cases hdate : e.date = p.time.date <;> simp [hdate]
  unfold asOf at hsession ⊢
  rw [List.getLast?_concat, Option.map_some, hsession]
  rfl

/-- Points absorbed one after another make the quote of all of them. -/
theorem Quote.foldl_absorb {read more : List PricePoint} (h : TimeSorted (read ++ more)) :
    more.foldl (fun last p => some (Cursor.absorb calendar mode last p))
        (asOf calendar mode read) = asOf calendar mode (read ++ more) := by
  induction more generalizing read with
  | nil => rw [List.append_nil, List.foldl_nil]
  | cons p rest ih =>
      have hsplit : read ++ p :: rest = (read ++ [p]) ++ rest := by simp
      rw [hsplit] at h ⊢
      rw [List.foldl_cons, ← asOf_concat (List.pairwise_append.1 h).1]
      exact ih h

/-! ### What a feed has reached -/

/-- Of points in the order of time those reached, and then those not reached up to a moment, are
those reached by then. -/
theorem TimeSorted.reached_append {points : List PricePoint} (h : TimeSorted points)
    {reached : DateTime → Bool} (hdown : ∀ a b, a ≤ b → reached b → reached a)
    (now : DateTime) :
    (points.filter fun p => reached p.time) ++
        upTo now (points.filter fun p => !reached p.time) =
      points.filter fun p => reached p.time || decide (p.time ≤ now) := by
  induction points with
  | nil => rfl
  | cons p rest ih =>
      obtain ⟨hp, hrest⟩ := List.pairwise_cons.1 h
      cases hfirst : reached p.time with
      | true =>
          simp only [List.filter_cons, hfirst, Bool.true_or, Bool.not_true, if_true]
          rw [List.cons_append]
          exact congrArg _ (ih hrest)
      | false =>
          -- What comes behind a point that was not reached was not reached either.
          have hnone : ∀ q ∈ p :: rest, reached q.time = false := by
            intro q hq
            rcases List.mem_cons.1 hq with rfl | hq
            · exact hfirst
            · rw [Bool.eq_false_iff]
              intro hreached
              rw [hdown p.time q.time (hp q hq) hreached] at hfirst
              cases hfirst
          have hread : (p :: rest).filter (fun q => reached q.time) = [] :=
            List.filter_eq_nil_iff.2 fun q hq => by simp [hnone q hq]
          have hahead : (p :: rest).filter (fun q => !reached q.time) = p :: rest :=
            List.filter_eq_self.2 fun q hq => by simp [hnone q hq]
          rw [hread, hahead, List.nil_append]
          exact List.filter_congr fun q hq => by simp [hnone q hq]

namespace Feed

/-- The series of a symbol; without points where there is none. -/
def seriesOf (source : SeriesLookup) (symbol : Symbol) : List PricePoint :=
  (source symbol).getD []

/-- A source of one symbol has sorted series if that of the symbol is sorted. -/
theorem timeSorted_single {points : List PricePoint} (h : TimeSorted points) (symbol s : Symbol) :
    TimeSorted (seriesOf (fun other => if other = symbol then some points else none) s) := by
  by_cases hs : s = symbol
  · simpa [seriesOf, hs] using h
  · simp [seriesOf, hs, TimeSorted]

/-- A feed over a source whose requests have reached some moments of each series: it has read the
points at these moments, and given their quote. -/
structure ReadTo (source : SeriesLookup) (calendar : Calendar) (mode : Normalization)
    (reach : Symbol → DateTime → Bool) (f : Feed) : Prop where
  calendar_eq : f.calendar = calendar
  mode_eq : f.mode = mode
  down : ∀ s a b, a ≤ b → reach s b → reach s a
  ahead_eq : ∀ s, f.ahead s = (seriesOf source s).filter fun p => !reach s p.time
  last_eq : ∀ s, f.last s =
    Quote.asOf calendar mode ((seriesOf source s).filter fun p => reach s p.time)

/-- What is reached by one more request. -/
def reachBy (reach : Symbol → DateTime → Bool) (symbols : List Symbol) (now : DateTime) :
    Symbol → DateTime → Bool :=
  fun s t => reach s t || (decide (s ∈ symbols) && decide (t ≤ now))

variable {source : SeriesLookup} {reach : Symbol → DateTime → Bool} {f : Feed}

/-- A feed starts with nothing reached. -/
theorem readTo_start (source : SeriesLookup) (calendar : Calendar) (mode : Normalization) :
    (Feed.start source calendar mode).ReadTo source calendar mode fun _ _ => false := by
  refine ⟨rfl, rfl, fun _ _ _ _ h => h, fun s => ?_, fun s => ?_⟩
  · rw [ahead_start]
    simp [seriesOf]
  · rw [last_start]
    simp [Quote.asOf]

/-- What is reached by one more request is reached with all earlier moments. -/
theorem down_reachBy (hdown : ∀ s a b, a ≤ b → reach s b → reach s a) (symbols : List Symbol)
    (now : DateTime) (s : Symbol) (a b : DateTime) (hab : a ≤ b)
    (hb : reachBy reach symbols now s b) : reachBy reach symbols now s a := by
  simp only [reachBy, Bool.or_eq_true, Bool.and_eq_true, decide_eq_true_eq] at hb ⊢
  exact hb.imp (hdown s a b hab) fun hlate => ⟨hlate.1, Int.le_trans hab hlate.2⟩

/-- A cursor advanced over a series has read what is reached by then. -/
theorem ReadTo.advanced_eq (h : f.ReadTo source calendar mode reach)
    (hsorted : ∀ s, TimeSorted (seriesOf source s)) (symbol : Symbol) (now : DateTime) :
    f.advanced symbol now =
      ⟨(seriesOf source symbol).filter fun p => !reachBy reach [symbol] now symbol p.time,
        Quote.asOf calendar mode ((seriesOf source symbol).filter fun p =>
          reachBy reach [symbol] now symbol p.time)⟩ := by
  have hreach : ∀ t, reachBy reach [symbol] now symbol t =
      (reach symbol t || decide (t ≤ now)) := by
    intro t
    simp [reachBy]
  have hahead : TimeSorted (f.ahead symbol) := by
    rw [h.ahead_eq]
    exact (hsorted symbol).filter _
  unfold advanced
  rw [Cursor.advance_eq_filter now _ hahead, h.calendar_eq, h.mode_eq, h.last_eq, h.ahead_eq]
  have hsplit := (hsorted symbol).reached_append (h.down symbol) now
  have hread : TimeSorted (((seriesOf source symbol).filter fun p => reach symbol p.time) ++
      upTo now ((seriesOf source symbol).filter fun p => !reach symbol p.time)) := by
    rw [hsplit]
    exact (hsorted symbol).filter _
  rw [Quote.foldl_absorb hread, hsplit, List.filter_filter]
  simp only [hreach]
  congr 1
  refine List.filter_congr fun p _ => ?_
  have hlate : decide (now < p.time) = !decide (p.time ≤ now) := by
    rw [← decide_not]
    exact decide_eq_decide.2 Int.not_le.symm
  rw [hlate, Bool.not_or, Bool.and_comm]

/-- A request reaches the moments of its symbol up to its own, and answers with their quote. -/
theorem ReadTo.request (h : f.ReadTo source calendar mode reach)
    (hsorted : ∀ s, TimeSorted (seriesOf source s)) (symbol : Symbol) (now : DateTime) :
    (f.request symbol now).1 = Quote.asOf calendar mode ((seriesOf source symbol).filter fun p =>
        reachBy reach [symbol] now symbol p.time) ∧
      (f.request symbol now).2.ReadTo source calendar mode (reachBy reach [symbol] now) := by
  have hadvanced := h.advanced_eq hsorted symbol now
  have hother : ∀ s, s ≠ symbol → reachBy reach [symbol] now s = reach s := by
    intro s hs
    funext t
    simp [reachBy, hs]
  obtain ⟨hcalendar, hmode⟩ := f.request_modes symbol now
  refine ⟨?_, hcalendar.trans h.calendar_eq, hmode.trans h.mode_eq,
    down_reachBy h.down [symbol] now, fun s => ?_, fun s => ?_⟩
  · rw [request_fst, hadvanced]
  · rw [ahead_request]
    by_cases hs : s = symbol
    · rw [if_pos hs, hs, hadvanced]
    · rw [if_neg hs, hother s hs]
      exact h.ahead_eq s
  · rw [last_request]
    by_cases hs : s = symbol
    · rw [if_pos hs, hs, hadvanced]
    · rw [if_neg hs, hother s hs]
      exact h.last_eq s

/-- Requests reach the moments of their symbols up to that of the slice, and give it the quotes of
the points reached by then. -/
theorem ReadTo.collect (h : f.ReadTo source calendar mode reach)
    (hsorted : ∀ s, TimeSorted (seriesOf source s)) (symbols : List Symbol) (slice : DataSlice) :
    (f.collect slice symbols).2.ReadTo source calendar mode
        (reachBy reach symbols slice.instant.time) ∧
      ∀ s, (f.collect slice symbols).1.get? s =
        if s ∈ symbols then (Quote.asOf calendar mode ((seriesOf source s).filter fun p =>
          reachBy reach symbols slice.instant.time s p.time)).or (slice.get? s)
        else slice.get? s := by
  induction symbols generalizing f reach slice with
  | nil =>
      have hnone : reachBy reach [] slice.instant.time = reach := by
        funext s t
        simp [reachBy]
      rw [hnone]
      exact ⟨h, fun s => by simp [Feed.collect]⟩
  | cons symbol rest ih =>
      have hreach : reachBy (reachBy reach [symbol] slice.instant.time) rest slice.instant.time =
          reachBy reach (symbol :: rest) slice.instant.time := by
        funext s t
        simp only [reachBy, List.mem_cons, List.not_mem_nil, or_false, Bool.decide_or,
          Bool.and_or_distrib_right, Bool.or_assoc]
      obtain ⟨hquote, hread⟩ := h.request hsorted symbol slice.instant.time
      -- The quote of `symbol` is the same whether it is requested once or again later.
      have hagain : reachBy reach [symbol] slice.instant.time symbol =
          reachBy reach (symbol :: rest) slice.instant.time symbol := by
        funext t
        simp [reachBy]
      rw [hagain] at hquote
      have hinstant := instant_withQuote slice symbol (f.request symbol slice.instant.time).1
      obtain ⟨hread', hquotes⟩ := ih hread
        (withQuote slice symbol (f.request symbol slice.instant.time).1)
      rw [hinstant, hreach] at hread' hquotes
      rw [collect_cons]
      refine ⟨hread', fun s => ?_⟩
      rw [hquotes, get?_withQuote, hquote]
      by_cases hs : s = symbol
      · subst hs
        by_cases hrest : s ∈ rest
        · simp [hrest, ← Option.or_assoc]
        · simp [hrest]
      · simp [hs]

/-- A slice reaches the moments of its symbols up to its own, and has the quotes of the points
reached by then. -/
theorem ReadTo.slice (h : f.ReadTo source calendar mode reach)
    (hsorted : ∀ s, TimeSorted (seriesOf source s)) (now : Instant) (symbols : List Symbol) :
    (f.slice now symbols).2.ReadTo source calendar mode (reachBy reach symbols now.time) ∧
      ∀ s, (f.slice now symbols).1.get? s =
        if s ∈ symbols then Quote.asOf calendar mode ((seriesOf source s).filter fun p =>
          reachBy reach symbols now.time s p.time)
        else none := by
  obtain ⟨hread, hquotes⟩ := h.collect hsorted symbols (.emptyAt now)
  refine ⟨hread, fun s => (hquotes s).trans ?_⟩
  have hnone : (DataSlice.emptyAt now).get? s = none := rfl
  rw [hnone, Option.or_none]
  rfl

/-! ### Calls in turn -/

/-- The feed after slices were taken in turn, each at an instant for some symbols. -/
def afterCalls (f : Feed) (calls : List (Instant × List Symbol)) : Feed :=
  calls.foldl (fun f call => (f.slice call.1 call.2).2) f

/-- The latest of a moment and the instants of the calls that requested a symbol. -/
def latestRequest (s : Symbol) (calls : List (Instant × List Symbol)) (now : DateTime) :
    DateTime :=
  calls.foldl (fun latest call =>
    if s ∈ call.2 ∧ latest < call.1.time then call.1.time else latest) now

/-- What calls have reached of each series. -/
def reachedBy (calls : List (Instant × List Symbol)) (s : Symbol) (t : DateTime) : Bool :=
  calls.any fun call => decide (s ∈ call.2) && decide (t ≤ call.1.time)

/-- A moment is not later than the latest request if it is not later than one of the requests. -/
theorem le_latestRequest_iff {s : Symbol} {calls : List (Instant × List Symbol)}
    {now t : DateTime} :
    t ≤ latestRequest s calls now ↔ reachedBy calls s t ∨ t ≤ now := by
  induction calls generalizing now with
  | nil => simp [latestRequest, reachedBy]
  | cons call rest ih =>
      have hstep : latestRequest s (call :: rest) now = latestRequest s rest
          (if s ∈ call.2 ∧ now < call.1.time then call.1.time else now) := rfl
      have hreached : reachedBy (call :: rest) s t ↔
          (s ∈ call.2 ∧ t ≤ call.1.time) ∨ reachedBy rest s t := by
        simp [reachedBy]
      rw [hstep, ih, hreached]
      by_cases hlate : s ∈ call.2 ∧ now < call.1.time
      · have hnow : t ≤ now → t ≤ call.1.time := fun ht =>
          Int.le_trans ht (Int.le_of_lt hlate.2)
        rw [if_pos hlate]
        constructor
        · rintro (hrest | ht)
          · exact .inl (.inr hrest)
          · exact .inl (.inl ⟨hlate.1, ht⟩)
        · rintro ((⟨-, ht⟩ | hrest) | ht)
          · exact .inr ht
          · exact .inl hrest
          · exact .inr (hnow ht)
      · rw [if_neg hlate]
        constructor
        · rintro (hrest | ht)
          · exact .inl (.inr hrest)
          · exact .inr ht
        · rintro ((⟨hs, ht⟩ | hrest) | ht)
          · have hearly : call.1.time ≤ now := Int.not_lt.1 fun hlt => hlate ⟨hs, hlt⟩
            exact .inr (Int.le_trans ht hearly)
          · exact .inl hrest
          · exact .inr ht

/-- After calls in turn a feed has read what they have reached. -/
theorem readTo_afterCalls (hsorted : ∀ s, TimeSorted (seriesOf source s)) (calendar : Calendar)
    (mode : Normalization) (calls : List (Instant × List Symbol)) :
    ((start source calendar mode).afterCalls calls).ReadTo source calendar mode
      (reachedBy calls) := by
  induction calls using List.reverseRecOn with
  | nil => exact readTo_start source calendar mode
  | append_singleton calls call ih =>
      have hslice := (ih.slice hsorted call.1 call.2).1
      have hreach : reachBy (reachedBy calls) call.2 call.1.time =
          reachedBy (calls ++ [call]) := by
        funext s t
        simp [reachBy, reachedBy]
      unfold afterCalls
      rw [List.foldl_concat, ← hreach]
      exact hslice

/-- Over sorted series the quote of a requested symbol is that of the points up to the latest
instant, of this call and the earlier ones, at which the symbol was requested; nothing else about
the calls matters. There is no quote exactly if there is no such point; otherwise its time and price
are those of the last point, and its session opening is the first one on the last date with one. -/
theorem slice_eq_asOf (hsorted : ∀ s, TimeSorted (seriesOf source s)) (calendar : Calendar)
    (mode : Normalization) (calls : List (Instant × List Symbol)) (now : Instant)
    {symbols : List Symbol} {s : Symbol} (hs : s ∈ symbols) :
    let read := upTo (latestRequest s calls now.time) (seriesOf source s)
    let given := (((start source calendar mode).afterCalls calls).slice now symbols).1.get? s
    given = Quote.asOf calendar mode read ∧ (given = none ↔ read = []) ∧
      ∀ quote, given = some quote → ∃ last, read.getLast? = some last ∧
        quote.time = last.time ∧ quote.price = last.priceIn mode ∧
        quote.sessionOpen = lastSession (read.filterMap (PricePoint.opening? calendar mode)) := by
  intro read given
  have hgiven : given = Quote.asOf calendar mode read := by
    have hread := readTo_afterCalls hsorted calendar mode calls
    have hquote := (hread.slice hsorted now symbols).2 s
    rw [if_pos hs] at hquote
    refine hquote.trans (congrArg (Quote.asOf calendar mode) ?_)
    refine List.filter_congr fun p _ => ?_
    rw [Bool.eq_iff_iff, decide_eq_true_eq, le_latestRequest_iff]
    simp [reachBy, hs]
  refine ⟨hgiven, ?_, fun quote hquote => ?_⟩
  · rw [hgiven, Quote.asOf, Option.map_eq_none_iff, List.getLast?_eq_none_iff]
  · rw [hgiven, Quote.asOf] at hquote
    obtain ⟨last, hlast, rfl⟩ := Option.map_eq_some_iff.1 hquote
    exact ⟨last, hlast, rfl, rfl, rfl⟩

/-- Prints of a symbol on two dates: a bar before the first session, two ticks in it, its daily bar,
and two ticks of the second session. -/
def twoSessions : List PricePoint :=
  let point := fun (time : DateTime) (price : Int) (opened : Option Int) =>
    (⟨.equity "SPY", time, price, opened, PricePoint.unitFactor⟩ : PricePoint)
  [point (.clock (.civil 2013 10 7) 4 0) 168100000 (some 168000000),
    point (.clock (.civil 2013 10 7) 9 30) 168000000 none,
    point (.clock (.civil 2013 10 7) 15 0) 168500000 none,
    point (.clock (.civil 2013 10 7) 16 0) 167430000 (some 168800000),
    point (.clock (.civil 2013 10 8) 9 31) 167450000 none,
    point (.clock (.civil 2013 10 8) 9 45) 167000000 none]

/-- After a call during the second session, one during the first still gives the last tick of the
second, with its first tick as the opening. -/
theorem twoSessions_asOf :
    let spy := Symbol.equity "SPY"
    let source : SeriesLookup := fun s => if s = spy then some twoSessions else none
    let first : Instant := ⟨⟨⟨735147, by decide, by decide⟩, ⟨36000, 0, by decide, by decide⟩⟩,
      .minute⟩
    let second : Instant := ⟨⟨⟨735148, by decide, by decide⟩, ⟨36000, 0, by decide, by decide⟩⟩,
      .minute⟩
    let tick : DateTime := ⟨second.date, ⟨35100, 0, by decide, by decide⟩⟩
    let opening : DateTime := ⟨second.date, ⟨34260, 0, by decide, by decide⟩⟩
    (((start source .exchangeWeekdays .raw).afterCalls [(second, [spy])]).slice first [spy]).1.get?
        spy = some ⟨tick, 167000000, some ⟨second.date, opening, 167450000⟩⟩ := by
  intro spy source first second tick opening
  have hprints : TimeSorted twoSessions := by
    unfold TimeSorted
    decide +kernel
  have hsorted : ∀ s, TimeSorted (seriesOf source s) := timeSorted_single hprints spy
  have hquote := (slice_eq_asOf hsorted .exchangeWeekdays .raw [(second, [spy])] first
    (List.mem_singleton.2 rfl : spy ∈ [spy])).1
  exact hquote.trans (by decide +kernel)

end Feed

end MarketReplay
