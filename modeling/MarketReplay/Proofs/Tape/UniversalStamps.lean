import MarketReplay.Proofs.Civil.Setbacks
import MarketReplay.Proofs.Run.Steps
import MarketReplay.Proofs.Tape.AsOf
import MarketReplay.Proofs.Tape.RowOrder

/-!
# Prints stamped in universal time

A row may give the time of its print as a second of the epoch, but series are in the order of
exchange time. So the prints of a table keep the order of their seconds except around the moments
at which the clock of the exchange is put back: there a later print stands before an earlier one if
the clock is put back by more than the time between the two, and the quote of a feed is that of the
earlier one (`PriceTable.universal_prints_in_order`).
-/

namespace MarketReplay

open NewYork

/-- The quote that a feed gives is that of the points up to the latest request. -/
theorem Feed.quote_afterCalls {source : SeriesLookup} {s : Symbol} {symbols : List Symbol}
    (hsorted : ∀ s, TimeSorted (seriesOf source s)) (calendar : Calendar) (mode : Normalization)
    (calls : List (Instant × List Symbol)) (now : Instant) (hs : s ∈ symbols) :
    (((start source calendar mode).afterCalls calls).slice now symbols).1.get? s =
      Quote.asOf calendar mode (upTo (latestRequest s calls now.time) (seriesOf source s)) := by
  have hread := readTo_afterCalls hsorted calendar mode calls
  have hreached : ∀ t, reachBy (reachedBy calls) symbols now.time s t =
      decide (t ≤ latestRequest s calls now.time) := by
    intro t
    rw [Bool.eq_iff_iff, decide_eq_true_eq, le_latestRequest_iff]
    simp [reachBy, hs]
  rw [(hread.slice hsorted now symbols).2 s, if_pos hs, upTo]
  simp only [hreached]

/-- A print and the second of the epoch at which it was made. -/
structure UniversalPrint where
  second : Int
  point : PricePoint
  local_second : local? second = some point.time

namespace UniversalPrint

variable {a b : UniversalPrint}

/-! ### Two prints -/

theorem time_le_iff (a b : UniversalPrint) :
    a.point.time ≤ b.point.time ↔ localSecond a.second ≤ localSecond b.second :=
  local?_le_iff a.local_second b.local_second

/-- A later print has no later time only if the clock is put back by the time between the two or
more. -/
theorem putBack_of_le (h : a.point.time ≤ b.point.time) (hlate : b.second < a.second) :
    PutBack b.second a.second (a.second - b.second) :=
  (localSecond_le_iff hlate).1 ((time_le_iff a b).1 h)

/-- A later print has a later or the same time only if the clock is not put back by more. -/
theorem not_putBack_of_le (h : a.point.time ≤ b.point.time) (hlate : a.second < b.second) :
    ¬ PutBack a.second b.second (b.second - a.second + 1) := fun hback =>
  Int.not_lt.2 ((time_le_iff a b).1 h) ((localSecond_lt_iff hlate).2 hback)

/-! ### Series -/

/-- Prints are sorted by their local seconds. -/
theorem sortsBy_localSecond :
    SortsBy (fun a b : UniversalPrint => a.point.time ≤ b.point.time)
      fun e => localSecond e.second where
  trans a b c := PriceSource.sortsBy_time.trans a.point b.point c.point
  total a b := PriceSource.sortsBy_time.total a.point b.point
  tie_iff a b := by
    rw [decide_eq_true_eq, decide_eq_true_eq, time_le_iff, time_le_iff]
    exact Int.le_antisymm_iff

/-- The prints of a symbol. -/
def printsOf (symbol : Symbol) (prints : List UniversalPrint) : List UniversalPrint :=
  prints.filter fun e => e.point.symbol = symbol

/-- Prints in the order of their local seconds. -/
def sorted (prints : List UniversalPrint) : List UniversalPrint :=
  prints.mergeSort fun a b => a.point.time ≤ b.point.time

/-- The series of a symbol is that of its prints in the order of their local seconds. -/
theorem series_eq_sorted {prints : List UniversalPrint} {symbol : Symbol} {series : List PricePoint}
    (h : (PriceSource.ofPoints (prints.map point)).seriesOf symbol = some series) :
    series = (sorted (printsOf symbol prints)).map point := by
  rw [PriceSource.seriesOf_ofPoints] at h
  split at h
  · cases h
  · obtain rfl := Option.some.inj h
    rw [PriceSource.pointsOf, List.filter_map]
    have hmap : (sorted (printsOf symbol prints)).map point =
        PriceSource.sortByTime ((printsOf symbol prints).map point) :=
      List.map_mergeSort fun _ _ _ _ => rfl
    exact hmap.symm

/-- A moment has reached no point exactly if it is before all prints. -/
theorem upTo_eq_nil_iff {ordered : List UniversalPrint} {moment : DateTime} :
    upTo moment (ordered.map point) = [] ↔ ∀ e ∈ ordered, moment < e.point.time := by
  rw [upTo, List.filter_eq_nil_iff, List.forall_mem_map]
  refine forall₂_congr fun e _ => ?_
  rw [decide_eq_true_eq]
  exact Int.not_le

/-- The last print that a moment has reached has all later ones behind it. -/
theorem exists_last {ordered : List UniversalPrint} {moment : DateTime} {last : PricePoint}
    (h : (upTo moment (ordered.map point)).getLast? = some last) :
    ∃ earlier e later, ordered = earlier ++ e :: later ∧ e.point = last ∧
      e.point.time ≤ moment ∧ ∀ e' ∈ later, moment < e'.point.time := by
  rw [upTo, List.filter_map, List.getLast?_map, List.getLast?_filter] at h
  obtain ⟨e, hfind, rfl⟩ := Option.map_eq_some_iff.1 h
  obtain ⟨hreached, behind, before, hreverse, hnone⟩ := List.find?_eq_some_iff_append.1 hfind
  refine ⟨before.reverse, e, behind.reverse, ?_, rfl, of_decide_eq_true hreached,
    fun e' he' => ?_⟩
  · have hordered := congrArg List.reverse hreverse
    simpa using hordered
  · have hlate := hnone e' (List.mem_reverse.1 he')
    rw [Bool.not_eq_true'] at hlate
    exact Int.not_le.1 (of_decide_eq_false hlate)

/-- Whether prints are those of a symbol in the order of their local seconds. A print stands before
an earlier one only if the clock is put back between the two by at least the time from one to the
other, and a print stands before a later one only if it is not put back by more. -/
structure InLocalOrder (symbol : Symbol) (prints ordered : List UniversalPrint) : Prop where
  reordered : Reordered (fun e => localSecond e.second) (printsOf symbol prints) ordered
  putBack : ordered.Pairwise fun a b =>
    b.second < a.second → PutBack b.second a.second (a.second - b.second)
  not_putBack : ordered.Pairwise fun a b =>
    a.second < b.second → ¬ PutBack a.second b.second (b.second - a.second + 1)

/-- Whether a print is the last of a series that a moment has reached. No print that it has reached
is later, except for those before which the clock was put back by at least the time since. -/
structure LastReached (ordered : List UniversalPrint) (moment : DateTime) (last : UniversalPrint) :
    Prop where
  reached : last.point.time ≤ moment
  split : ∃ earlier later, ordered = earlier ++ last :: later ∧
    ∀ e ∈ later, moment < e.point.time
  latest : ∀ e ∈ ordered, e.point.time ≤ moment →
    e.second ≤ last.second ∨ PutBack last.second e.second (e.second - last.second)

/-- Whether a quote that was asked for at a moment is that of the last print reached, if one is. -/
structure Quoted (ordered : List UniversalPrint) (mode : Normalization) (moment : DateTime)
    (given : Option Quote) : Prop where
  none_iff : given = none ↔ ∀ e ∈ ordered, moment < e.point.time
  last : ∀ quote, given = some quote → ∃ last, LastReached ordered moment last ∧
    quote.time = last.point.time ∧ quote.price = last.point.priceIn mode

/-- The prints of a symbol, sorted, are in local order. -/
theorem inLocalOrder_sorted (symbol : Symbol) (prints : List UniversalPrint) :
    InLocalOrder symbol prints (sorted (printsOf symbol prints)) := by
  have horder := sortsBy_localSecond.pairwise_mergeSort (printsOf symbol prints)
  exact {
    reordered := sortsBy_localSecond.reordered_mergeSort _
    putBack := horder.imp fun hle => putBack_of_le (of_decide_eq_true hle)
    not_putBack := horder.imp fun hle => not_putBack_of_le (of_decide_eq_true hle) }

/-- Of sorted prints, the last one with all later prints behind a moment is the last that the moment
has reached. -/
theorem lastReached_of_split {earlier later : List UniversalPrint} {moment : DateTime}
    {last : UniversalPrint}
    (horder : (earlier ++ last :: later).Pairwise fun a b => a.point.time ≤ b.point.time)
    (hreached : last.point.time ≤ moment) (hlater : ∀ e ∈ later, moment < e.point.time) :
    LastReached (earlier ++ last :: later) moment last := by
  refine ⟨hreached, ⟨earlier, later, rfl, hlater⟩, fun e hmem he => ?_⟩
  have hle : e.point.time ≤ last.point.time := by
    rcases List.mem_append.1 hmem with hearlier | hbehind
    · exact (List.pairwise_append.1 horder).2.2 e hearlier last List.mem_cons_self
    · rcases List.mem_cons.1 hbehind with rfl | hbehind
      · exact Int.le_refl _
      · exact absurd he (Int.not_le.2 (hlater e hbehind))
  by_cases hsecond : e.second ≤ last.second
  · exact .inl hsecond
  · exact .inr (putBack_of_le hle (Int.not_le.1 hsecond))

end UniversalPrint

namespace PriceTable

/-! ### Rows -/

/-- The second of the epoch of a record's fields, if they have one. -/
def second? (header fields : List String) : Option Int :=
  (row? header (fields.map Text.trimmed)).bind Row.second

theorem time_of_row? {header fields : List String} {row : Row} (h : row? header fields = some row) :
    row.time = cell? header fields "time" := by
  unfold row? at h
  split at h
  · cases h
  · simp only at h
    split at h
    · obtain rfl := Option.some.inj h
      rfl
    · obtain ⟨second, -, rfl⟩ := Option.map_eq_some_iff.1 h
      rfl

theorem local?_of_parseUniversal {second : Int} {t : DateTime} (h : parseUniversal second = .ok t) :
    local? second = some t := by
  unfold parseUniversal at h
  split at h
  · cases h
  · split at h
    · cases h
    · rename_i hlocal
      rw [hlocal, Except.ok.inj h]

/-- A row without a time has the time of its second. -/
theorem local?_of_point {line : Nat} {row : Row} {p : PricePoint} (h : row.point line = .ok p)
    (hnone : row.time = none) :
    ∃ second, row.second = some second ∧ local? second = some p.time := by
  unfold Row.point at h
  rw [hnone] at h
  cases hsymbol : Symbol.parse row.symbol with
  | error e => rw [hsymbol] at h; cases h
  | ok symbol =>
      rw [hsymbol] at h
      cases hsecond : row.second with
      | none => rw [hsecond] at h; cases h
      | some second =>
          rw [hsecond] at h
          obtain ⟨t, htime, h⟩ := exists_of_bind_eq_ok (x := parseUniversal second) h
          obtain ⟨price, -, h⟩ := exists_of_bind_eq_ok h
          obtain ⟨openPrice, -, h⟩ := exists_of_bind_eq_ok h
          obtain ⟨factor, -, h⟩ := exists_of_bind_eq_ok h
          cases h
          exact ⟨second, rfl, local?_of_parseUniversal htime⟩

/-- A row with a point and without a time is a print stamped with its second. -/
theorem exists_universalPrint {header fields : List String} {p : PricePoint}
    (hpoint : point? header fields = some p)
    (hnone : cell? header (fields.map Text.trimmed) "time" = none) :
    ∃ e : UniversalPrint, e.point = p ∧ second? header fields = some e.second := by
  obtain ⟨row, hrow, hvalue⟩ := Option.bind_eq_some_iff.1 hpoint
  have htime : row.time = none := (time_of_row? hrow).trans hnone
  obtain ⟨second, hsecond, hlocal⟩ := local?_of_point (eq_ok_of_toOption hvalue) htime
  refine ⟨⟨second, p, hlocal⟩, rfl, ?_⟩
  rw [second?, hrow, Option.bind_some, hsecond]

/-- Rows with points and without times are prints stamped with their seconds. -/
theorem exists_universalPrints {header : List String} {rows : List (List String)}
    {points : List PricePoint} (hpoints : rows.map (point? header) = points.map some)
    (hnone : ∀ fields ∈ rows, cell? header (fields.map Text.trimmed) "time" = none) :
    ∃ prints : List UniversalPrint, prints.map UniversalPrint.point = points ∧
      rows.map (second? header) = prints.map fun e => some e.second := by
  induction rows generalizing points with
  | nil => exact ⟨[], (List.map_eq_nil_iff.1 hpoints.symm).symm, rfl⟩
  | cons fields rest ih =>
      obtain ⟨p, tail, rfl, hp, htail⟩ := List.map_eq_cons_iff.1 hpoints.symm
      obtain ⟨hfirst, hrest⟩ := List.forall_mem_cons.1 hnone
      obtain ⟨e, rfl, hsecond⟩ := exists_universalPrint hp.symm hfirst
      obtain ⟨prints, rfl, hseconds⟩ := ih htail.symm hrest
      refine ⟨e :: prints, rfl, ?_⟩
      rw [List.map_cons, List.map_cons, hsecond, hseconds]

/-- Take a table that is accepted and whose rows give no time, so each gives the second of its print
in universal time. The series of a symbol has its prints in the order of their local seconds, those
of one local second in the order of their rows.

So a print stands before an earlier one only if the clock is put back between the two by at least
the time from one to the other, and a print stands before a later one only if it is not put back by
more. A feed gives no quote as long as it has reached no print; otherwise the quote is that of the
last print that it has reached, and no print that it has reached is later except for those before
which the clock was put back by at least the time since the print of the quote. -/
theorem universal_prints_in_order {content : String} {points : List PricePoint}
    {header : List String} {rows : List (List String)} (hparse : parse content = .ok points)
    (hfields : recordFields content = header :: rows)
    (hnone : ∀ fields ∈ rows,
      cell? (header.map Text.trimmed) (fields.map Text.trimmed) "time" = none) :
    ∃ prints : List UniversalPrint,
      rows.map (point? (header.map Text.trimmed)) = prints.map (fun e => some e.point) ∧
      rows.map (second? (header.map Text.trimmed)) = prints.map (fun e => some e.second) ∧
      ∀ symbol series, (PriceSource.ofPoints points).seriesOf symbol = some series →
        ∃ ordered : List UniversalPrint, series = ordered.map UniversalPrint.point ∧
          UniversalPrint.InLocalOrder symbol prints ordered ∧
          ∀ calendar mode calls (now : Instant) symbols, symbol ∈ symbols →
            UniversalPrint.Quoted ordered mode (Feed.latestRequest symbol calls now.time)
              ((((Feed.start (PriceSource.ofPoints points).seriesOf calendar
                mode).afterCalls calls).slice now symbols).1.get? symbol) := by
  obtain ⟨-, unsorted, hread, rfl⟩ := (parse_eq_ok_iff hfields).1 hparse
  obtain ⟨prints, rfl, hseconds⟩ := exists_universalPrints hread hnone
  have hsource : PriceSource.ofPoints ((prints.map UniversalPrint.point).mergeSort precedes) =
      PriceSource.ofPoints (prints.map UniversalPrint.point) :=
    PriceSource.ofPoints_eq_of_reordered (sortsBy_place.reordered_mergeSort _)
  rw [hsource]
  refine ⟨prints, hread.trans List.map_map, hseconds, fun symbol series hseries => ?_⟩
  obtain rfl := UniversalPrint.series_eq_sorted hseries
  have horder : (UniversalPrint.sorted (UniversalPrint.printsOf symbol prints)).Pairwise
      fun a b => a.point.time ≤ b.point.time :=
    (UniversalPrint.sortsBy_localSecond.pairwise_mergeSort _).imp of_decide_eq_true
  refine ⟨_, rfl, UniversalPrint.inLocalOrder_sorted symbol prints, ?_⟩
  intro calendar mode calls now symbols hsymbol
  have hsorted : ∀ s, TimeSorted (Feed.seriesOf
      (PriceSource.ofPoints (prints.map UniversalPrint.point)).seriesOf s) :=
    PriceSource.timeSorted_sortAll _
  have hgiven := Feed.quote_afterCalls hsorted calendar mode calls now hsymbol
  rw [Feed.seriesOf, hseries, Option.getD_some, Quote.asOf] at hgiven
  refine ⟨?_, fun quote hquote => ?_⟩
  · rw [← UniversalPrint.upTo_eq_nil_iff, ← List.getLast?_eq_none_iff]
    exact (Eq.congr_left hgiven).trans Option.map_eq_none_iff
  · obtain ⟨p, hlast, rfl⟩ := Option.map_eq_some_iff.1 (hgiven.symm.trans hquote)
    obtain ⟨earlier, last, later, hsplit, rfl, hreached, hlater⟩ :=
      UniversalPrint.exists_last hlast
    rw [hsplit] at horder ⊢
    exact ⟨last, UniversalPrint.lastReached_of_split horder hreached hlater, rfl, rfl⟩

/-- Prints of one symbol on the day on which daylight time ended, at 5:30 and at 6:10 in universal
time. -/
def repeatedHour : String := "symbol,ts_utc,price\nSPY,1383456600,1\nSPY,1383459000,2\n"

/-- The columns of the table. -/
def repeatedHourHeader : List String := ["symbol", "ts_utc", "price"]

/-- The rows of the table. -/
def repeatedHourRows : List (List String) :=
  [["SPY", "1383456600", "1"], ["SPY", "1383459000", "2"]]

/-- The first print was made at half past one, in daylight time. -/
def daylightPrint : PricePoint :=
  ⟨.equity "SPY", .clock (.civil 2013 11 3) 1 30, 1000000, none, PricePoint.unitFactor⟩

/-- The second print was made at ten past one, in standard time. -/
def standardPrint : PricePoint :=
  ⟨.equity "SPY", .clock (.civil 2013 11 3) 1 10, 2000000, none, PricePoint.unitFactor⟩

theorem repeatedHour_fields :
    recordFields repeatedHour = repeatedHourHeader :: repeatedHourRows := by
  decide +kernel

theorem repeatedHour_times : ∀ fields ∈ repeatedHourRows,
    cell? (repeatedHourHeader.map Text.trimmed) (fields.map Text.trimmed) "time" = none := by
  decide +kernel

theorem repeatedHour_seconds :
    repeatedHourRows.map (second? (repeatedHourHeader.map Text.trimmed)) =
      [some 1383456600, some 1383459000] := by
  decide +kernel

theorem repeatedHour_points :
    repeatedHourRows.map (point? (repeatedHourHeader.map Text.trimmed)) =
      [some daylightPrint, some standardPrint] := by
  decide +kernel

theorem repeatedHour_parse : parse repeatedHour = .ok [standardPrint, daylightPrint] := by
  refine (parse_eq_ok_iff repeatedHour_fields).2 ⟨by decide +kernel,
    [daylightPrint, standardPrint], repeatedHour_points, ?_⟩
  have hswap : [standardPrint, daylightPrint].mergeSort precedes =
      [daylightPrint, standardPrint].mergeSort precedes :=
    sortsBy_place.mergeSort_eq (.swap (by decide +kernel) [])
  rw [← hswap]
  exact List.mergeSort_of_pairwise (by decide +kernel)

theorem repeatedHour_series :
    (PriceSource.ofPoints [standardPrint, daylightPrint]).seriesOf (.equity "SPY") =
      some [standardPrint, daylightPrint] := by
  rw [PriceSource.seriesOf_ofPoints]
  have hpoints : PriceSource.pointsOf (.equity "SPY") [standardPrint, daylightPrint] =
      [standardPrint, daylightPrint] := by
    decide +kernel
  rw [hpoints, if_neg (List.cons_ne_nil _ _)]
  exact congrArg some (List.mergeSort_of_pairwise (by decide +kernel))

/-- The clock was put back between the two prints by at least the forty minutes from one to the
other, since the series has the second print before the first. -/
theorem repeatedHour_putBack :
    recordFields repeatedHour = repeatedHourHeader :: repeatedHourRows ∧
      parse repeatedHour = .ok [standardPrint, daylightPrint] ∧
      PutBack 1383456600 1383459000 (1383459000 - 1383456600) := by
  refine ⟨repeatedHour_fields, repeatedHour_parse, ?_⟩
  obtain ⟨prints, hpoints, hseconds, hseries⟩ :=
    universal_prints_in_order repeatedHour_parse repeatedHour_fields repeatedHour_times
  rw [repeatedHour_points] at hpoints
  rw [repeatedHour_seconds] at hseconds
  obtain ⟨a, rest, rfl, ha, hrest⟩ := List.map_eq_cons_iff.1 hpoints.symm
  obtain ⟨b, rest, rfl, hb, hnil⟩ := List.map_eq_cons_iff.1 hrest
  obtain rfl := List.map_eq_nil_iff.1 hnil
  simp only [List.map_cons, List.map_nil, List.cons.injEq, Option.some.injEq, and_true]
    at ha hb hseconds
  obtain ⟨ordered, hordered, hlocal, -⟩ := hseries _ _ repeatedHour_series
  obtain ⟨x, rest, rfl, hx, hrest⟩ := List.map_eq_cons_iff.1 hordered.symm
  obtain ⟨y, rest, rfl, hy, -⟩ := List.map_eq_cons_iff.1 hrest
  -- The prints of the series are those of the rows, told apart by their points.
  have hne : daylightPrint ≠ standardPrint := by decide +kernel
  have hmem : ∀ e ∈ x :: y :: rest, e = a ∨ e = b := fun e he => by
    simpa using List.mem_of_mem_filter (hlocal.reordered.perm.mem_iff.1 he)
  have hxb : x = b := by
    rcases hmem x List.mem_cons_self with rfl | hxb
    · exact absurd (ha.symm.trans hx) hne
    · exact hxb
  have hya : y = a := by
    rcases hmem y (List.mem_cons_of_mem _ List.mem_cons_self) with hya | rfl
    · exact hya
    · exact absurd (hy.symm.trans hb) hne
  have hpair := (List.pairwise_cons.1 hlocal.putBack).1 y List.mem_cons_self
  rw [hxb, hya, ← hseconds.1, ← hseconds.2] at hpair
  exact hpair (by decide)

/-- The later print of the repeated hour stands first in its series, and at noon a feed quotes the
price of the earlier one. -/
theorem repeatedHour_reversed :
    recordFields repeatedHour = repeatedHourHeader :: repeatedHourRows ∧
      (∀ fields ∈ repeatedHourRows,
        cell? (repeatedHourHeader.map Text.trimmed) (fields.map Text.trimmed) "time" = none) ∧
      repeatedHourRows.map (second? (repeatedHourHeader.map Text.trimmed)) =
        [some 1383456600, some 1383459000] ∧
      repeatedHourRows.map (point? (repeatedHourHeader.map Text.trimmed)) =
        [some daylightPrint, some standardPrint] ∧
      parse repeatedHour = .ok [standardPrint, daylightPrint] ∧
      (PriceSource.ofPoints [standardPrint, daylightPrint]).seriesOf (.equity "SPY") =
        some [standardPrint, daylightPrint] ∧
      let noon : Instant := ⟨.clock (.civil 2013 11 3) 12 0, .daily⟩
      let source := PriceSource.ofPoints [standardPrint, daylightPrint]
      let given := ((Feed.start source.seriesOf .alwaysOn .raw).slice noon [.equity "SPY"]).1.get?
        (.equity "SPY")
      given.map Quote.price = some daylightPrint.price := by
  refine ⟨repeatedHour_fields, repeatedHour_times, repeatedHour_seconds, repeatedHour_points,
    repeatedHour_parse, repeatedHour_series, ?_⟩
  intro noon source given
  have hsorted : ∀ s, TimeSorted (Feed.seriesOf source.seriesOf s) :=
    PriceSource.timeSorted_sortAll _
  have hgiven := Feed.quote_afterCalls hsorted .alwaysOn .raw [] noon
    (List.mem_singleton.2 rfl : Symbol.equity "SPY" ∈ [Symbol.equity "SPY"])
  have hseries : Feed.seriesOf source.seriesOf (.equity "SPY") =
      [standardPrint, daylightPrint] := by
    rw [Feed.seriesOf, repeatedHour_series, Option.getD_some]
  rw [hseries] at hgiven
  exact (congrArg (Option.map Quote.price) hgiven).trans (by decide +kernel)

end PriceTable

end MarketReplay
