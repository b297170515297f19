import MarketReplay.Proofs.Reordering
import MarketReplay.Proofs.Tape.Feed

/-!
# The order in which points are loaded

The series of a symbol is the stable sort by time of the symbol's points
(`PriceSource.seriesOf_ofPoints`). So points that are inserted one by one give the source that they
give at once (`PriceSource.foldl_insert`), and points reordered by symbol and time give the same
source (`PriceSource.ofPoints_eq_of_reordered`).
-/

namespace MarketReplay

namespace PricePoint

/-- What a print is of and when. -/
def place (p : PricePoint) : Symbol × DateTime := (p.symbol, p.time)

end PricePoint

namespace PriceSource

/-- The points of a symbol. -/
def pointsOf (symbol : Symbol) (points : List PricePoint) : List PricePoint :=
  points.filter fun p => p.symbol = symbol

/-! ### Stable sorting -/

/-- Points are sorted by their time. -/
theorem sortsBy_time : SortsBy (fun a b : PricePoint => a.time ≤ b.time) PricePoint.time where
  trans a b c hab hbc :=
    decide_eq_true (Int.le_trans (of_decide_eq_true hab) (of_decide_eq_true hbc))
  total a b := by
    rw [Bool.or_eq_true, decide_eq_true_eq, decide_eq_true_eq]
    exact Int.le_total a.time.stamp b.time.stamp
  tie_iff a b := by
    rw [decide_eq_true_eq, decide_eq_true_eq]
    constructor
    · intro hsame
      exact ⟨Int.le_of_eq (congrArg DateTime.stamp hsame),
        Int.le_of_eq (congrArg DateTime.stamp hsame.symm)⟩
    · rintro ⟨hab, hba⟩
      exact DateTime.ext_stamp (Int.le_antisymm hab hba)

/-- Sorted points with more points behind them sort as the unsorted ones do. -/
theorem sortByTime_append (points tail : List PricePoint) :
    sortByTime (sortByTime points ++ tail) = sortByTime (points ++ tail) :=
  sortsBy_time.mergeSort_eq ((sortsBy_time.reordered_mergeSort points).append tail)

/-- Reordered points are reordered for each symbol. -/
theorem reordered_pointsOf {points points' : List PricePoint}
    (h : Reordered PricePoint.place points points') (symbol : Symbol) :
    Reordered PricePoint.time (pointsOf symbol points) (pointsOf symbol points') := by
  have hguard : ∀ l : List PricePoint, pointsOf symbol l =
      l.filterMap (Option.guard fun p => p.symbol = symbol) := by
    intro l
    rw [List.filterMap_eq_filter]
    rfl
  rw [hguard, hguard]
  refine h.filterMap (fun t => (symbol, t)) fun p q t hpq => ?_
  obtain ⟨rfl, hsymbol⟩ := Option.guard_eq_some_iff.1 hpq
  have hsymbol : p.symbol = symbol := of_decide_eq_true hsymbol
  simp [PricePoint.place, hsymbol]

/-! ### Points pushed and sorted -/

/-- Sources with the same series and contracts are the same. -/
theorem ext_lookups {a b : PriceSource} (hseries : ∀ symbol, a.seriesOf symbol = b.seriesOf symbol)
    (hcontracts : ∀ symbol, a.contracts.contains symbol = b.contracts.contains symbol) : a = b := by
  obtain ⟨series, contracts⟩ := a
  obtain ⟨series', contracts'⟩ := b
  obtain rfl : series = series' := SortedMap.ext_get? hseries
  obtain rfl : contracts = contracts' := SortedSet.ext_contains hcontracts
  rfl

/-- The series of a sorted source. -/
theorem seriesOf_sortAll (src : PriceSource) (symbol : Symbol) :
    src.sortAll.seriesOf symbol = (src.seriesOf symbol).map sortByTime :=
  SortedMap.get?_mapValues src.series _ symbol

/-- The series after a point. -/
theorem seriesOf_push (src : PriceSource) (p : PricePoint) (symbol : Symbol) :
    (src.push p).seriesOf symbol =
      if symbol = p.symbol then some ((src.seriesOf symbol).getD [] ++ [p])
      else src.seriesOf symbol := by
  have hlookup : (src.push p).seriesOf symbol =
      if symbol = p.symbol then some ((src.seriesOf p.symbol).getD [] ++ [p])
      else src.seriesOf symbol :=
    SortedMap.get?_insert src.series p.symbol symbol _
  rw [hlookup]
  by_cases hsymbol : symbol = p.symbol
  · rw [if_pos hsymbol, if_pos hsymbol, hsymbol]
  · rw [if_neg hsymbol, if_neg hsymbol]

/-- The contracts after a point. -/
theorem contains_contracts_push (src : PriceSource) (p : PricePoint) (symbol : Symbol) :
    (src.push p).contracts.contains symbol =
      (decide (symbol = p.symbol ∧ p.symbol.isDerivative) || src.contracts.contains symbol) := by
  unfold push
  simp only
  split
  · rename_i hderivative
    rw [SortedSet.contains_add]
    simp [hderivative]
  · rename_i hderivative
    simp [hderivative]

/-- Points pushed in turn stand behind the series of their symbols. -/
theorem seriesOf_foldl_push (src : PriceSource) (points : List PricePoint) (symbol : Symbol) :
    (points.foldl push src).seriesOf symbol =
      if pointsOf symbol points = [] then src.seriesOf symbol
      else some ((src.seriesOf symbol).getD [] ++ pointsOf symbol points) := by
  induction points generalizing src with
  | nil => rfl
  | cons p rest ih =>
      rw [List.foldl_cons, ih, seriesOf_push]
      by_cases hsymbol : p.symbol = symbol
      · have hpoints : pointsOf symbol (p :: rest) = p :: pointsOf symbol rest :=
          List.filter_cons_of_pos (decide_eq_true hsymbol)
        rw [if_pos hsymbol.symm, hpoints, if_neg (List.cons_ne_nil _ _)]
        split
        · rename_i hnone
          rw [hnone]
        · rw [Option.getD_some, List.append_assoc, List.singleton_append]
      · have hpoints : pointsOf symbol (p :: rest) = pointsOf symbol rest :=
          List.filter_cons_of_neg (by rwa [decide_eq_true_eq])
        rw [if_neg (show symbol ≠ p.symbol from fun h => hsymbol h.symm), hpoints]

/-- Points pushed in turn list the contracts among their symbols. -/
theorem contains_contracts_foldl_push (src : PriceSource) (points : List PricePoint)
    (symbol : Symbol) :
    (points.foldl push src).contracts.contains symbol =
      (decide (symbol.isDerivative ∧ ∃ p ∈ points, p.symbol = symbol) ||
        src.contracts.contains symbol) := by
  induction points generalizing src with
  | nil => simp
  | cons p rest ih =>
      rw [List.foldl_cons, ih, contains_contracts_push]
      by_cases hsymbol : p.symbol = symbol
      · subst hsymbol
        cases p.symbol.isDerivative <;> simp
      · have hother : symbol ≠ p.symbol := fun h => hsymbol h.symm
        simp [hsymbol, hother]

/-- Sorting before a point is pushed makes no difference to sorting after it. -/
theorem sortAll_push_sortAll (src : PriceSource) (p : PricePoint) :
    (src.sortAll.push p).sortAll = (src.push p).sortAll := by
  refine ext_lookups (fun symbol => ?_) (fun symbol => rfl)
  rw [seriesOf_sortAll, seriesOf_sortAll, seriesOf_push, seriesOf_push, seriesOf_sortAll]
  by_cases hsymbol : symbol = p.symbol
  · rw [if_pos hsymbol, if_pos hsymbol, Option.map_some, Option.map_some]
    cases src.seriesOf symbol with
    | none => rfl
    | some points => exact congrArg some (sortByTime_append points [p])
  · rw [if_neg hsymbol, if_neg hsymbol]
    cases src.seriesOf symbol with
    | none => rfl
    | some points =>
        have hsorted := sortByTime_append points []
        rw [List.append_nil, List.append_nil] at hsorted
        exact congrArg some hsorted

/-- Points inserted one by one give the source of the same points pushed and sorted at the end. -/
theorem foldl_insert_sortAll (src : PriceSource) (points : List PricePoint) :
    points.foldl insert src.sortAll = (points.foldl push src).sortAll := by
  induction points generalizing src with
  | nil => rfl
  | cons p rest ih => rw [List.foldl_cons, List.foldl_cons, ← ih, insert, sortAll_push_sortAll]

/-- Points inserted one by one give the source that they give at once. -/
theorem foldl_insert (points : List PricePoint) : points.foldl insert empty = ofPoints points :=
  foldl_insert_sortAll empty points

/-! ### The source of points -/

/-- A symbol has a series if it has a point, its points in the order of time. -/
theorem seriesOf_ofPoints (points : List PricePoint) (symbol : Symbol) :
    (ofPoints points).seriesOf symbol =
      if pointsOf symbol points = [] then none else some (sortByTime (pointsOf symbol points)) := by
  rw [ofPoints, seriesOf_sortAll, seriesOf_foldl_push]
  split <;> rfl

/-- A symbol has no series exactly if it has no point. -/
theorem seriesOf_ofPoints_eq_none_iff {points : List PricePoint} {symbol : Symbol} :
    (ofPoints points).seriesOf symbol = none ↔ ∀ p ∈ points, p.symbol ≠ symbol := by
  have hnil : pointsOf symbol points = [] ↔ ∀ p ∈ points, p.symbol ≠ symbol := by
    simp [pointsOf]
  rw [seriesOf_ofPoints, ← hnil]
  split <;> simp_all

/-- The series of a symbol holds its points, in the order of time and at one time in the order in
which they came. -/
theorem series_of_ofPoints {points series : List PricePoint} {symbol : Symbol}
    (h : (ofPoints points).seriesOf symbol = some series) :
    TimeSorted series ∧ series.Perm (points.filter fun p => p.symbol = symbol) ∧
      ∀ t, series.filter (fun p => p.time = t) =
        points.filter fun p => p.symbol = symbol ∧ p.time = t := by
  rw [seriesOf_ofPoints] at h
  split at h
  · cases h
  obtain rfl := Option.some.inj h
  have hsorted := sortsBy_time.reordered_mergeSort (pointsOf symbol points)
  refine ⟨(sortsBy_time.pairwise_mergeSort _).imp of_decide_eq_true, hsorted.perm, fun t => ?_⟩
  rw [sortByTime, hsorted.filter_eq, pointsOf, List.filter_filter]
  refine List.filter_congr fun p _ => ?_
  rw [Bool.decide_and, Bool.and_comm]

/-- The contracts are those that have a point. -/
theorem contains_contracts_ofPoints (points : List PricePoint) (symbol : Symbol) :
    (ofPoints points).contracts.contains symbol =
      decide (symbol.isDerivative ∧ ∃ p ∈ points, p.symbol = symbol) := by
  have hpushed := contains_contracts_foldl_push empty points symbol
  exact hpushed.trans (Bool.or_false _)

/-- Points reordered by symbol and time give the same source. -/
theorem ofPoints_eq_of_reordered {points points' : List PricePoint}
    (h : Reordered PricePoint.place points points') : ofPoints points' = ofPoints points := by
  refine ext_lookups (fun symbol => ?_) (fun symbol => ?_)
  · have hsymbol := reordered_pointsOf h symbol
    have hnil : pointsOf symbol points' = [] ↔ pointsOf symbol points = [] :=
      ⟨fun hnil => (hnil ▸ hsymbol.perm).symm.eq_nil, fun hnil => (hnil ▸ hsymbol.perm).eq_nil⟩
    have hsorted : sortByTime (pointsOf symbol points') = sortByTime (pointsOf symbol points) :=
      sortsBy_time.mergeSort_eq hsymbol
    simp only [seriesOf_ofPoints, hnil, hsorted]
  · rw [contains_contracts_ofPoints, contains_contracts_ofPoints]
    simp only [h.perm.mem_iff]

end PriceSource

end MarketReplay
