import MarketReplay.CommandLine.Response
import MarketReplay.Csv.Writer
import MarketReplay.Proofs.Civil.Moments
import MarketReplay.Proofs.Csv.Characters
import MarketReplay.Proofs.Tape.LoadOrder

/-!
# The order of the rows of a price table

Whether a row has a point, and which, does not depend on where it stands (`PriceTable.point?`). So a
table with its rows reordered by the symbol and time of their points has the same points in the
same order (`PriceTable.parse_of_reordered`), and the program answers as it does without it
(`Invocation.respond_of_reordered`).
-/

namespace MarketReplay

namespace PriceTable

/-! ### Rows and their points -/

/-- The point of a record's fields, if there is one. -/
def point? (header fields : List String) : Option PricePoint :=
  (row? header (fields.map Text.trimmed)).bind fun row => (row.point 0).toOption

/-- The number of a row matters to errors only. -/
theorem toOption_point (row : Row) (line : Nat) :
    (row.point line).toOption = (row.point 0).toOption := by
  unfold Row.point
  cases Symbol.parse row.symbol with
  | error e => rfl
  | ok symbol =>
      cases row.time with
      | some t => rfl
      | none =>
          cases row.second with
          | some second => rfl
          | none => rfl

/-- Rows are read if each has a point. -/
theorem readRows_eq_ok_iff {header : List String} {line : Nat} {records : List Csv.Record}
    {points : List PricePoint} :
    readRows header line records = .ok points ↔
      records.map (fun record => point? header record.fields) = points.map some := by
  induction records generalizing line points with
  | nil => cases points <;> simp [readRows]
  | cons record rest ih =>
      rw [readRows, List.map_cons]
      cases hrow : row? header (record.fields.map Text.trimmed) with
      | none =>
          have hnone : point? header record.fields = none := by rw [point?, hrow, Option.bind_none]
          cases points <;> simp [hnone]
      | some row =>
          have hpoint : point? header record.fields = (row.point line).toOption := by
            rw [point?, hrow, Option.bind_some, toOption_point row line]
          rw [hpoint]
          simp only
          cases row.point line with
          | error e => cases points <;> simp [Except.toOption]
          | ok p =>
              cases points with
              | nil => cases readRows header (line + 1) rest <;> simp [Except.map]
              | cons q points =>
                  simp only [Except.toOption, List.map_cons, List.cons.injEq, Option.some.injEq,
                    ← @ih (line + 1)]
                  cases readRows header (line + 1) rest <;> simp [Except.map]

/-- The records of a table as fields; a mark of the byte order in front does not count. -/
def recordFields (content : String) : List (List String) :=
  (Csv.records (content.toList.dropWhile (· == '\ufeff'))).map Csv.Record.fields

/-- Whether a header names the columns that a table must have. -/
def namesColumns (header : List String) : Bool :=
  header.contains "symbol" && header.contains "price" &&
    (header.contains "time" || header.contains "ts_utc")

/-- A blank text has no record that names a column. -/
theorem not_blank_of_namesColumns {content : String} {header : List String}
    {rows : List (List String)} (hfields : recordFields content = header :: rows)
    (hnames : namesColumns (header.map Text.trimmed)) :
    (content.toList.dropWhile (· == '\ufeff')).all Text.isBlank = false := by
  have hsymbol : "symbol" ∈ header.map Text.trimmed := by
    simp only [namesColumns, Bool.and_eq_true, List.contains_iff_mem] at hnames
    exact hnames.1.1
  obtain ⟨field, hfield, htrimmed⟩ := List.mem_map.1 hsymbol
  obtain ⟨record, hrecord, hheader⟩ := List.mem_map.1 (hfields ▸ List.mem_cons_self)
  by_contra hblank
  rw [Bool.not_eq_false, List.all_eq_true] at hblank
  have hall : field.toList.all Text.isBlank := List.all_eq_true.2 fun c hc =>
    hblank c (Csv.mem_of_mem_records hrecord (hheader ▸ hfield) hc)
  rw [Text.trimmed, (Text.trim_eq_nil_iff _).2 hall] at htrimmed
  exact absurd htrimmed (by decide)

/-- A table is read if its header names the columns and each row has a point; the points come out
sorted. -/
theorem parse_eq_ok_iff {content : String} {points : List PricePoint} {header : List String}
    {rows : List (List String)} (hfields : recordFields content = header :: rows) :
    parse content = .ok points ↔
      namesColumns (header.map Text.trimmed) ∧
        ∃ unsorted : List PricePoint,
          rows.map (point? (header.map Text.trimmed)) = unsorted.map some ∧
            unsorted.mergeSort precedes = points := by
  have hblank := not_blank_of_namesColumns hfields
  obtain ⟨first, rest, hrecords, rfl, rfl⟩ := List.map_eq_cons_iff.1 hfields
  unfold parse
  simp only [hrecords, List.head?_cons, Option.map_some, Option.getD_some, List.tail_cons,
    List.map_map]
  generalize first.fields.map Text.trimmed = header at hblank ⊢
  by_cases hnames : namesColumns header
  · have hvisible := hblank hnames
    rw [hvisible]
    simp only [hnames, true_and, Bool.false_eq_true, if_false]
    simp only [namesColumns, Bool.and_eq_true] at hnames
    obtain ⟨⟨hsymbol, hprice⟩, htime⟩ := hnames
    simp only [hsymbol, hprice, htime, Bool.not_true, Bool.false_eq_true, if_false]
    constructor
    · intro hread
      cases hrows : readRows header 2 rest with
      | error e =>
          rw [hrows] at hread
          cases hread
      | ok unsorted =>
          rw [hrows] at hread
          exact ⟨unsorted, readRows_eq_ok_iff.1 hrows, Except.ok.inj hread⟩
    · rintro ⟨unsorted, hpoints, rfl⟩
      rw [readRows_eq_ok_iff.2 hpoints]
      rfl
  · refine ⟨fun hread => absurd ?_ hnames, fun h => absurd h.1 hnames⟩
    split at hread
    · cases hread
    split at hread
    · cases hread
    split at hread
    · cases hread
    split at hread
    · cases hread
    simp_all [namesColumns]

/-- A table that is read has a header. -/
theorem exists_header {content : String} {points : List PricePoint}
    (h : parse content = .ok points) : ∃ header rows, recordFields content = header :: rows := by
  cases hfields : recordFields content with
  | cons header rows => exact ⟨header, rows, rfl⟩
  | nil =>
      have hrecords := List.map_eq_nil_iff.1 hfields
      unfold parse at h
      simp only [hrecords] at h
      split at h <;> cases h

/-! ### Rows reordered -/

/-- Points are compared by their time, then by their symbol. -/
theorem precedes_iff (a b : PricePoint) :
    precedes a b ↔ a.time < b.time ∨ a.time = b.time ∧ (compare a.symbol b.symbol).isLE := by
  rw [precedes, Bool.or_eq_true, Bool.and_eq_true, decide_eq_true_eq, decide_eq_true_eq]

/-- Points of a table are sorted by their time and symbol. -/
theorem sortsBy_place : SortsBy precedes PricePoint.place where
  trans a b c hab hbc := by
    rw [precedes_iff] at *
    rcases hab with hab | ⟨hab, hsymbol⟩
    · rcases hbc with hbc | ⟨hbc, -⟩
      · exact .inl (Int.lt_trans hab hbc)
      · exact .inl (hbc ▸ hab)
    · rcases hbc with hbc | ⟨hbc, hsymbol'⟩
      · exact .inl (hab ▸ hbc)
      · exact .inr ⟨hab.trans hbc, Std.TransCmp.isLE_trans hsymbol hsymbol'⟩
  total a b := by
    rw [Bool.or_eq_true, precedes_iff, precedes_iff]
    rcases Int.lt_trichotomy a.time.stamp b.time.stamp with hlt | heq | hgt
    · exact .inl (.inl hlt)
    · have htime : a.time = b.time := DateTime.ext_stamp heq
      cases hsymbol : compare a.symbol b.symbol with
      | lt => exact .inl (.inr ⟨htime, rfl⟩)
      | eq => exact .inl (.inr ⟨htime, rfl⟩)
      | gt =>
          have hback := Std.OrientedCmp.lt_of_gt hsymbol
          exact .inr (.inr ⟨htime.symm, by rw [hback]; rfl⟩)
    · exact .inr (.inl hgt)
  tie_iff a b := by
    rw [precedes_iff, precedes_iff, PricePoint.place, PricePoint.place, Prod.mk.injEq]
    constructor
    · rintro ⟨hsymbol, htime⟩
      rw [hsymbol]
      exact ⟨.inr ⟨htime, Std.ReflCmp.isLE_rfl⟩, .inr ⟨htime.symm, Std.ReflCmp.isLE_rfl⟩⟩
    · rintro ⟨hab, hba⟩
      rcases hab with hab | ⟨htime, hle⟩ <;> rcases hba with hba | ⟨htime', hle'⟩
      · exact absurd hba (Int.not_lt.2 (Int.le_of_lt hab))
      · exact absurd hab (htime' ▸ Int.lt_irrefl _)
      · exact absurd hba (htime ▸ Int.lt_irrefl _)
      · exact ⟨Std.LawfulEqCmp.eq_of_compare (Std.OrientedCmp.isLE_antisymm hle hle'), htime⟩

/-- The symbol and time of the point of a row. -/
def rowPlace (header fields : List String) : Option (Symbol × DateTime) :=
  (point? (header.map Text.trimmed) fields).map PricePoint.place

/-- A table with its rows reordered by the symbol and time of their points has the same points. -/
theorem parse_of_reordered {content content' : String} {points : List PricePoint}
    {header : List String} {rows rows' : List (List String)}
    (hparse : parse content = .ok points) (hfields : recordFields content = header :: rows)
    (hfields' : recordFields content' = header :: rows')
    (h : Reordered (rowPlace header) rows rows') : parse content' = .ok points := by
  obtain ⟨hnames, unsorted, hrows, rfl⟩ := (parse_eq_ok_iff hfields).1 hparse
  let read := point? (header.map Text.trimmed)
  have hread : rows.filterMap read = unsorted := by
    have hmap : (rows.map read).filterMap id = unsorted := by
      rw [hrows, List.filterMap_map, Function.id_comp, List.filterMap_some]
    rwa [List.filterMap_map, Function.id_comp] at hmap
  have hrows' : rows'.map read = (rows'.filterMap read).map some := by
    rw [List.map_filterMap_some_eq_filter_map_isSome, eq_comm, List.filter_eq_self]
    intro point hpoint
    obtain ⟨row, hrow, rfl⟩ := List.mem_map.1 hpoint
    have hmem : read row ∈ unsorted.map some := by
      rw [← hrows]
      exact List.mem_map_of_mem (h.perm.mem_iff.1 hrow)
    obtain ⟨p, -, hp⟩ := List.mem_map.1 hmem
    rw [← hp, Option.isSome_some]
  have hpoints : Reordered PricePoint.place (rows.filterMap read) (rows'.filterMap read) := by
    refine h.filterMap some fun row p place hp => ?_
    have hplace : rowPlace header row = some p.place := congrArg (Option.map PricePoint.place) hp
    rw [hplace, Option.some.injEq]
  refine (parse_eq_ok_iff hfields').2 ⟨hnames, _, hrows', ?_⟩
  rw [sortsBy_place.mergeSort_eq hpoints, hread]

end PriceTable

/-! ### Runs -/

/-- A configuration depends on no other files than those of its layers. -/
theorem Config.ofFiles_congr {file file' : FileLookup} {paths : List String}
    (h : ∀ path ∈ paths, file' path = file path) :
    Config.ofFiles file' paths = Config.ofFiles file paths := by
  have hread : ∀ path ∈ paths, Config.readFile file' path = Config.readFile file path :=
    fun path hpath => by rw [Config.readFile, Config.readFile, h path hpath]
  have hlist : paths.mapM (Config.readFile file') = paths.mapM (Config.readFile file) := by
    induction paths with
    | nil => rfl
    | cons path rest ih =>
        rw [List.mapM_cons, List.mapM_cons, hread path List.mem_cons_self,
          ih (fun q hq => h q (List.mem_cons_of_mem _ hq))
            fun q hq => hread q (List.mem_cons_of_mem _ hq)]
  rw [Config.ofFiles, Config.ofFiles, hlist]

/-- A plan depends on no other files than those of the layers. -/
theorem RunRequest.plan_congr {file file' : FileLookup} {request : RunRequest}
    (h : ∀ path ∈ request.configs, file' path = file path) :
    request.plan file' = request.plan file := by
  unfold plan config
  rw [Config.ofFiles_congr h]

/-- A request whose configuration stays as it is and whose table has the same points as before gets
the same response. -/
theorem Invocation.respond_congr {file file' : FileLookup} {request : RunRequest} {config : Config}
    {plan : RunPlan} {content content' : String} {points : List PricePoint}
    (hplan : request.plan file = .ok (config, plan))
    (hconfigs : ∀ path ∈ request.configs, file' path = file path)
    (hfile : file plan.prices = .ok content) (hfile' : file' plan.prices = .ok content')
    (hparse : PriceTable.parse content = .ok points)
    (hparse' : PriceTable.parse content' = .ok points) (execution : Execution) :
    (backtest request).respond file' execution = (backtest request).respond file execution := by
  have hpoints : plan.points file' = plan.points file := by
    rw [RunPlan.points, RunPlan.points, hfile, hfile']
    show ((PriceTable.parse content').mapError _) = (PriceTable.parse content).mapError _
    rw [hparse, hparse']
  have hrun : runResponse file' execution request = runResponse file execution request := by
    unfold runResponse
    rw [RunRequest.plan_congr hconfigs, hplan]
    show (plan.points file').bind _ = (plan.points file).bind _
    rw [hpoints]
  rw [respond, respond, hrun]

open PriceSource PriceTable in
/-- Points inserted one by one give the source that they give at once. A symbol with points has them
all in its series, in the order of time and at one time in the order in which they came, and is a
contract of the source if it is a derivative. Points reordered by symbol and time give the same
source; a table with its rows reordered by the symbol and time of their points gives the same
points, and every request that reads it the same response. -/
theorem source_ignores_load_order (points : List PricePoint) :
    points.foldl insert empty = ofPoints points ∧
    (∀ symbol,
      ((ofPoints points).seriesOf symbol = none ↔ ∀ p ∈ points, p.symbol ≠ symbol) ∧
      ((ofPoints points).contracts.contains symbol ↔
        symbol.isDerivative ∧ ∃ p ∈ points, p.symbol = symbol) ∧
      ∀ series, (ofPoints points).seriesOf symbol = some series →
        TimeSorted series ∧ series.Perm (points.filter fun p => p.symbol = symbol) ∧
        ∀ t, series.filter (fun p => p.time = t) =
          points.filter fun p => p.symbol = symbol ∧ p.time = t) ∧
    (∀ points', Reordered PricePoint.place points points' →
      ofPoints points' = ofPoints points ∧ points'.foldl insert empty = ofPoints points) ∧
    ∀ content, parse content = .ok points →
      ∃ header rows, recordFields content = header :: rows ∧
        ∀ content' rows', recordFields content' = header :: rows' →
          Reordered (rowPlace header) rows rows' →
          parse content' = .ok points ∧
          ∀ file file' (request : RunRequest) config plan execution,
            request.plan file = .ok (config, plan) →
            (∀ path ∈ request.configs, file' path = file path) →
            file plan.prices = .ok content → file' plan.prices = .ok content' →
            (Invocation.backtest request).respond file' execution =
              (Invocation.backtest request).respond file execution := by
  refine ⟨foldl_insert points, fun symbol => ⟨?_, ?_, ?_⟩, ?_, ?_⟩
  · exact seriesOf_ofPoints_eq_none_iff
  · rw [contains_contracts_ofPoints, decide_eq_true_eq]
  · intro series hseries
    exact series_of_ofPoints hseries
  · intro points' h
    have hsame := ofPoints_eq_of_reordered h
    exact ⟨hsame, (foldl_insert points').trans hsame⟩
  · intro content hparse
    obtain ⟨header, rows, hfields⟩ := exists_header hparse
    refine ⟨header, rows, hfields, fun content' rows' hfields' h => ?_⟩
    have hparse' := parse_of_reordered hparse hfields hfields' h
    exact ⟨hparse', fun file file' request config plan execution hplan hconfigs hfile hfile' =>
      Invocation.respond_congr hplan hconfigs hfile hfile' hparse hparse' execution⟩

/-- The header of a small table. -/
def tiedHeader : List String := ["symbol", "time", "price"]

/-- The rows of the small table: two prints of one time, and an earlier one before or between
them. -/
def tiedRows (between : Bool) : List (List String) :=
  let early := ["SPY", "2014-06-05 09:30", "1"]
  let late := ["SPY", "2014-06-05 16:00", "2"]
  (if between then [late, early] else [early, late]) ++ [["SPY", "2014-06-05 16:00", "3"]]

/-- The text of the small table. -/
def tiedTable (between : Bool) : String := Csv.tableText (tiedHeader :: tiedRows between)

/-- A print of the small table. -/
def tiedPoint (hour minute : Nat) (price : Int) : PricePoint :=
  ⟨.equity "SPY", .clock (.civil 2014 6 5) hour minute, price, none, PricePoint.unitFactor⟩

/-- Two prints of one time keep their order while an earlier one moves between them: in what is read
from the table, in the source, and in the response to every request that reads the table. -/
theorem tied_prints_ignore_load_order :
    let points := [tiedPoint 9 30 1000000, tiedPoint 16 0 2000000, tiedPoint 16 0 3000000]
    let moved := [tiedPoint 16 0 2000000, tiedPoint 9 30 1000000, tiedPoint 16 0 3000000]
    moved.foldl PriceSource.insert .empty = .ofPoints points ∧
    PriceTable.parse (tiedTable false) = .ok points ∧
    PriceTable.parse (tiedTable true) = .ok points ∧
    ∀ file file' (request : RunRequest) config plan execution,
      request.plan file = .ok (config, plan) →
      (∀ path ∈ request.configs, file' path = file path) →
      file plan.prices = .ok (tiedTable false) → file' plan.prices = .ok (tiedTable true) →
      (Invocation.backtest request).respond file' execution =
        (Invocation.backtest request).respond file execution := by
  intro points moved
  have hrecords : ∀ between, PriceTable.recordFields (tiedTable between) =
      tiedHeader :: tiedRows between := by decide +kernel
  have hparse : PriceTable.parse (tiedTable false) = .ok points := by
    refine (PriceTable.parse_eq_ok_iff (hrecords false)).2 ⟨by decide, points, ?_, ?_⟩
    · decide +kernel
    · exact List.mergeSort_of_pairwise (by decide)
  obtain ⟨-, -, hsource, htable⟩ := source_ignores_load_order points
  obtain ⟨header, rows, hfields, hrows⟩ := htable _ hparse
  obtain ⟨rfl, rfl⟩ := List.cons.inj (hfields.symm.trans (hrecords false))
  have hpoints : Reordered PricePoint.place points moved := .swap (by decide) _
  have hplaces : Reordered (PriceTable.rowPlace tiedHeader) (tiedRows false) (tiedRows true) :=
    .swap (by decide +kernel) _
  obtain ⟨hparse', hrespond⟩ := hrows _ _ (hrecords true) hplaces
  exact ⟨(hsource moved hpoints).2, hparse, hparse', hrespond⟩

end MarketReplay
