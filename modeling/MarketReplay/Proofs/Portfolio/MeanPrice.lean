import MarketReplay.Proofs.Portfolio.AverageCost

/-!
# Average prices are means of entry prices

A position is entered by the trades that open it or add to it, and its entries start anew when it is
flat or changes its side (`Entries.add`). As long as the units held stay within 64 bits, the average
price of a holding lies between the least and the greatest of its entry prices, and is 0 without a
position (`Carries.trade`, `average_within_entries`). So neither the mean nor the distance of a
price from it overflows, whatever the trades have been.
-/

namespace MarketReplay

namespace Holding

/-- A trade of signed units at a price, and what a unit counts. -/
structure Trade where
  units : Int
  price : Int
  multiplier : Int

/-- Whether a trade moves the position, at a price of 64 bits that is not negative. -/
structure Trade.Proper (t : Trade) : Prop where
  units_ne_zero : t.units ≠ 0
  price_nonneg : 0 ≤ t.price
  price_le : t.price ≤ maxInt64

/-- The holding after a trade. -/
def traded (h : Holding) (t : Trade) : Holding := (h.trade t.units t.price t.multiplier).1

/-- The holding after trades from no position on. -/
def reached (trades : List Trade) : Holding := trades.foldl traded flat

/-- The units of a position and the prices at which it was entered. -/
structure Entries where
  units : Int
  prices : List Int
  deriving DecidableEq

/-- The entries of no position. -/
def Entries.none : Entries := ⟨0, []⟩

/-- The entries after a trade: one that opens the position or brings it to its other side is the
first entry, one that adds to it a further one. -/
def Entries.add (e : Entries) (t : Trade) : Entries where
  units := e.units + t.units
  prices :=
    if e.units + t.units = 0 then []
    else if (e.units + t.units).sign ≠ e.units.sign then [t.price]
    else if e.units.natAbs < (e.units + t.units).natAbs then e.prices ++ [t.price]
    else e.prices

/-- The entries of trades from no position on. -/
def entriesOf (trades : List Trade) : Entries := trades.foldl Entries.add .none

/-- Whether units and their magnitude are 64-bit integers. -/
def unitsFit (units : Int) : Bool := minInt64 < units && units ≤ maxInt64

/-- Whether the units held after each trade, and their magnitudes, are 64-bit integers. -/
def allUnitsFit (units : Int) : List Trade → Bool
  | [] => true
  | t :: rest => unitsFit (units + t.units) && allUnitsFit (units + t.units) rest

theorem unitsFit_iff {units : Int} : unitsFit units ↔ minInt64 < units ∧ units ≤ maxInt64 := by
  unfold unitsFit
  rw [Bool.and_eq_true, decide_eq_true_eq, decide_eq_true_eq]

theorem fitsInt64_of_unitsFit {units : Int} (h : unitsFit units) : fitsInt64 units := by
  obtain ⟨hlo, hhi⟩ := unitsFit_iff.1 h
  exact fitsInt64_iff.2 ⟨Int.le_of_lt hlo, hhi⟩

/-! ### What a position carries -/

/-- Whether a holding carries a position with its entries: its average is 0 without a position, and
with one it lies between any bounds of the entry prices. -/
structure Carries (h : Holding) (e : Entries) : Prop where
  quantity_eq : h.quantity = e.units
  units_fit : unitsFit e.units
  average_flat : e.units = 0 → h.averagePrice = 0
  entered : e.units ≠ 0 → e.prices ≠ []
  prices_fit : ∀ p ∈ e.prices, 0 ≤ p ∧ p ≤ maxInt64
  within : e.units ≠ 0 → ∀ lo hi, (∀ p ∈ e.prices, lo ≤ p ∧ p ≤ hi) →
    lo ≤ h.averagePrice ∧ h.averagePrice ≤ hi

theorem flat_carries : flat.Carries .none where
  quantity_eq := rfl
  units_fit := rfl
  average_flat _ := rfl
  entered hne := absurd rfl hne
  prices_fit := nofun
  within hne := absurd rfl hne

namespace Carries

variable {h : Holding} {e : Entries} {t : Trade}

/-- The average price of a position is a price. -/
theorem average_mem (hc : h.Carries e) : 0 ≤ h.averagePrice ∧ h.averagePrice ≤ maxInt64 := by
  by_cases hflat : e.units = 0
  · rw [hc.average_flat hflat]
    decide
  · exact hc.within hflat 0 maxInt64 hc.prices_fit

theorem bounded (hc : h.Carries e) : h.Bounded where
  quantity_fits := hc.quantity_eq ▸ fitsInt64_of_unitsFit hc.units_fit
  average_fits := by
    obtain ⟨hlo, hhi⟩ := hc.average_mem
    have hmin : minInt64 ≤ 0 := by decide
    exact fitsInt64_iff.2 ⟨Int.le_trans hmin hlo, hhi⟩

/-- The distance of a price from the average of a position does not overflow. -/
theorem distance_fits (hc : h.Carries e) (ht : t.Proper) :
    fitsInt64 (t.price - h.averagePrice) := by
  obtain ⟨hlo, hhi⟩ := hc.average_mem
  have hprice := ht.price_nonneg
  have hprice' := ht.price_le
  rw [fitsInt64_iff]
  unfold minInt64 maxInt64 at *
  omega

/-- A trade that enlarges a position makes its average the mean of what it has cost, cut toward
zero. -/
theorem traded_enlarging (hc : h.Carries e) (ht : t.Proper) (hfit : unitsFit (e.units + t.units))
    (henlarges : h.enlarges t.units) :
    h.traded t = ⟨h.quantity + t.units,
      (h.totalCost t.units t.price).tdiv (h.quantity + t.units).natAbs⟩ := by
  rw [← hc.quantity_eq] at hfit
  have hlo := (unitsFit_iff.1 hfit).1
  have hprice : fitsInt64 t.price := by
    have hmin : minInt64 ≤ 0 := by decide
    exact fitsInt64_iff.2 ⟨Int.le_trans hmin ht.price_nonneg, ht.price_le⟩
  have hfits : h.tradeFits t.units t.price t.multiplier := by
    have hbefore := (unitsFit_iff.1 hc.units_fit).1
    rw [← hc.quantity_eq] at hbefore
    unfold tradeFits
    rw [if_pos henlarges]
    simp [hbefore, hlo, fitsInt64_of_unitsFit hfit]
  exact congrArg Prod.fst
    (trade_enlarging hc.bounded ht.units_ne_zero hprice hfits henlarges)

/-- A trade that does not enlarge the position keeps its average unless it closes it or brings it to
its other side. -/
theorem traded_reducing (hc : h.Carries e) (hfit : unitsFit (e.units + t.units))
    (henlarges : ¬ h.enlarges t.units) :
    h.traded t = ⟨h.quantity + t.units,
      if h.quantity + t.units = 0 then 0
      else if (h.quantity + t.units).sign ≠ h.quantity.sign then t.price
      else h.averagePrice⟩ := by
  rw [← hc.quantity_eq] at hfit
  have hbranch : ¬ (h.quantity = 0 ∨ h.quantity.sign = t.units.sign) := by
    simpa [enlarges] using henlarges
  unfold traded Holding.trade
  rw [if_neg hbranch, wrap64_of_fits (fitsInt64_of_unitsFit hfit)]

/-- The entries after a trade that enlarges the position. -/
theorem prices_enlarging (hc : h.Carries e) (ht : t.Proper) (henlarges : h.enlarges t.units) :
    (e.add t).prices = if e.units = 0 then [t.price] else e.prices ++ [t.price] := by
  have hsides := (enlarges_iff ht.units_ne_zero).1 henlarges
  have hne := ht.units_ne_zero
  rw [hc.quantity_eq] at hsides
  unfold Entries.add
  simp only
  by_cases hflat : e.units = 0
  · have hsign : (e.units + t.units).sign ≠ e.units.sign := by
      rw [hflat, Int.zero_add, Int.sign_zero, Ne, Int.sign_eq_zero_iff_zero]
      exact hne
    rw [if_neg (by omega), if_pos hsign, if_pos hflat]
  · have hsign : (e.units + t.units).sign = e.units.sign := by
      rw [sign_eq_sign_iff (by omega) hflat]
      omega
    rw [if_neg (by omega), if_neg (not_not.2 hsign), if_pos (by omega), if_neg hflat]

/-- The entries after a trade that does not enlarge the position. -/
theorem prices_reducing (hc : h.Carries e) (ht : t.Proper) (henlarges : ¬ h.enlarges t.units) :
    (e.add t).prices =
      if e.units + t.units = 0 then []
      else if (e.units + t.units).sign ≠ e.units.sign then [t.price]
      else e.prices := by
  have hopposite := opposite_of_not_enlarges ht.units_ne_zero henlarges
  rw [hc.quantity_eq] at hopposite
  unfold Entries.add
  simp only
  by_cases hflat : e.units + t.units = 0
  · rw [if_pos hflat, if_pos hflat]
  · rw [if_neg hflat, if_neg hflat]
    by_cases hsign : (e.units + t.units).sign = e.units.sign
    · rw [if_neg (not_not.2 hsign), if_neg (not_not.2 hsign)]
      rw [sign_eq_sign_iff hflat (by omega)] at hsign
      rw [if_neg (by omega)]
    · rw [if_pos hsign, if_pos hsign]

/-- The mean of an enlarged position is taken without overflow. -/
theorem mean_fits (hc : h.Carries e) (ht : t.Proper) (hfit : unitsFit (e.units + t.units))
    (henlarges : h.enlarges t.units) :
    fitsInt128 (h.totalCost t.units t.price) ∧
      fitsInt64 ((h.totalCost t.units t.price).tdiv (h.quantity + t.units).natAbs) := by
  have hmagnitude := natAbs_add_of_enlarges ht.units_ne_zero henlarges
  have hunits := ht.units_ne_zero
  rw [← hc.quantity_eq] at hfit
  obtain ⟨hlo, hhi⟩ := unitsFit_iff.1 hfit
  obtain ⟨hcostLo, hcostHi⟩ := totalCost_mem hunits henlarges (fun _ => hc.average_mem)
    ht.price_nonneg ht.price_le
  obtain ⟨hmeanLo, hmeanHi⟩ := tdiv_mem_of_mul_mem (by omega) hcostLo hcostHi
  unfold fitsInt128
  rw [fitsInt64_iff, Bool.and_eq_true, decide_eq_true_eq, decide_eq_true_eq]
  unfold minInt64 maxInt64 at *
  omega

/-- A trade that enlarges the position carries it on. -/
theorem enlarge (hc : h.Carries e) (ht : t.Proper) (hfit : unitsFit (e.units + t.units))
    (henlarges : h.enlarges t.units) : (h.traded t).Carries (e.add t) := by
  have hprices := hc.prices_enlarging ht henlarges
  have hsides := (enlarges_iff ht.units_ne_zero).1 henlarges
  have hne := ht.units_ne_zero
  have hafter : e.units + t.units ≠ 0 := by
    rw [hc.quantity_eq] at hsides
    omega
  rw [hc.traded_enlarging ht hfit henlarges]
  refine ⟨congrArg (· + t.units) hc.quantity_eq, hfit, fun hzero => absurd hzero hafter, ?_, ?_, ?_⟩
  · intro _
    rw [hprices]
    split <;> simp
  · intro p hp
    rw [hprices] at hp
    have hnew : 0 ≤ t.price ∧ t.price ≤ maxInt64 := ⟨ht.price_nonneg, ht.price_le⟩
    split at hp
    · exact List.mem_singleton.1 hp ▸ hnew
    · rcases List.mem_append.1 hp with hold | hlast
      · exact hc.prices_fit p hold
      · exact List.mem_singleton.1 hlast ▸ hnew
  · intro _ lo hi hbounds
    have hnew : t.price ∈ (e.add t).prices := by
      rw [hprices]
      split <;> simp
    have hheld : h.quantity ≠ 0 → lo ≤ h.averagePrice ∧ h.averagePrice ≤ hi := by
      intro hheld
      rw [hc.quantity_eq] at hheld
      rw [hprices, if_neg hheld] at hbounds
      exact hc.within hheld lo hi fun p hp => hbounds p (List.mem_append_left _ hp)
    obtain ⟨hlo, hhi⟩ := hbounds t.price hnew
    obtain ⟨hcostLo, hcostHi⟩ := totalCost_mem hne henlarges hheld hlo hhi
    have hpos : (0 : Int) < (h.quantity + t.units).natAbs := by
      rw [hc.quantity_eq]
      omega
    exact tdiv_mem_of_mul_mem hpos hcostLo hcostHi

/-- A trade that does not enlarge the position carries on what it leaves. -/
theorem reduce (hc : h.Carries e) (ht : t.Proper) (hfit : unitsFit (e.units + t.units))
    (henlarges : ¬ h.enlarges t.units) : (h.traded t).Carries (e.add t) := by
  have hprices := hc.prices_reducing ht henlarges
  have hopposite := opposite_of_not_enlarges ht.units_ne_zero henlarges
  have hheld : e.units ≠ 0 := by
    rw [hc.quantity_eq] at hopposite
    omega
  have hunits : (e.add t).units = e.units + t.units := rfl
  rw [hc.traded_reducing hfit henlarges, hc.quantity_eq]
  by_cases hflat : e.units + t.units = 0
  · -- Closed: there is no entry left, and no average.
    rw [if_pos hflat] at hprices ⊢
    exact ⟨rfl, hfit, fun _ => rfl, fun hne => absurd hflat hne, by simp [hprices],
      fun hne => absurd hflat hne⟩
  · rw [if_neg hflat] at hprices ⊢
    by_cases hsign : (e.units + t.units).sign = e.units.sign
    · -- Reduced: the entries stay, and so does the average.
      rw [if_neg (not_not.2 hsign)] at hprices ⊢
      refine ⟨rfl, hfit, fun hzero => absurd hzero hflat, fun _ => ?_, ?_, fun _ => ?_⟩
      · rw [hprices]
        exact hc.entered hheld
      · rw [hprices]
        exact hc.prices_fit
      · rw [hprices]
        exact hc.within hheld
    · -- Brought to the other side: the rest is entered at the price of the trade.
      rw [if_pos hsign] at hprices ⊢
      refine ⟨rfl, hfit, fun hzero => absurd hzero hflat, fun _ => ?_, ?_, fun _ lo hi hbounds => ?_⟩
      · rw [hprices]
        exact List.cons_ne_nil _ _
      · rw [hprices]
        intro p hp
        exact List.mem_singleton.1 hp ▸ ⟨ht.price_nonneg, ht.price_le⟩
      · rw [hprices] at hbounds
        exact hbounds t.price List.mem_cons_self

/-- A trade leaves a holding that carries the position with the entries after the trade. -/
theorem trade (hc : h.Carries e) (ht : t.Proper) (hfit : unitsFit (e.units + t.units)) :
    (h.traded t).Carries (e.add t) := by
  by_cases henlarges : h.enlarges t.units
  · exact hc.enlarge ht hfit henlarges
  · exact hc.reduce ht hfit henlarges

/-- Trades in turn leave a holding that carries the position with the entries after them. -/
theorem foldl {trades : List Trade} (hc : h.Carries e) (hproper : ∀ t ∈ trades, t.Proper)
    (hfit : allUnitsFit e.units trades) :
    (trades.foldl traded h).Carries (trades.foldl Entries.add e) := by
  induction trades generalizing h e with
  | nil => exact hc
  | cons t rest ih =>
      obtain ⟨ht, hrest⟩ := List.forall_mem_cons.1 hproper
      rw [allUnitsFit, Bool.and_eq_true] at hfit
      exact ih (hc.trade ht hfit.1) hrest hfit.2

/-- The average of a position lies between the least and the greatest of its entry prices. -/
theorem exists_extremes (hc : h.Carries e) (hheld : e.units ≠ 0) :
    ∃ least greatest, e.prices.min? = some least ∧ e.prices.max? = some greatest ∧
      least ≤ h.averagePrice ∧ h.averagePrice ≤ greatest := by
  obtain ⟨least, hleast⟩ := Option.ne_none_iff_exists'.1 fun hnone =>
    hc.entered hheld (List.min?_eq_none_iff.1 hnone)
  obtain ⟨greatest, hgreatest⟩ := Option.ne_none_iff_exists'.1 fun hnone =>
    hc.entered hheld (List.max?_eq_none_iff.1 hnone)
  refine ⟨least, greatest, hleast, hgreatest, hc.within hheld least greatest fun p hp => ?_⟩
  exact ⟨(List.min?_eq_some_iff.1 hleast).2 p hp, (List.max?_eq_some_iff.1 hgreatest).2 p hp⟩

end Carries

/-- Take trades from no position on, each of at least one unit at a price of 64 bits that is not
negative, and let the units held after each trade and their magnitudes be 64-bit integers.

The holding that they reach has the units of its entries. Its average price is 0 without a position,
and with one lies between the least and the greatest price of the trades that opened it or added to
it since it was last flat or last changed its side.

For every further such trade that fits, the distance of its price from the average does not
overflow. If it enlarges the position, the mean is a quotient by the magnitude of the units held
after it, which is not zero; the dividend fits 128 bits and the quotient 64, so the average after
the trade is this quotient. -/
theorem average_within_entries (trades : List Trade) (hproper : ∀ t ∈ trades, t.Proper)
    (hfit : allUnitsFit 0 trades) :
    let h := reached trades
    let e := entriesOf trades
    h.quantity = e.units ∧ (h.quantity = 0 → h.averagePrice = 0) ∧
    (h.quantity ≠ 0 → ∃ least greatest, e.prices.min? = some least ∧
      e.prices.max? = some greatest ∧ least ≤ h.averagePrice ∧ h.averagePrice ≤ greatest) ∧
    ∀ t : Trade, t.Proper → unitsFit (h.quantity + t.units) →
      fitsInt64 (t.price - h.averagePrice) ∧
      (h.enlarges t.units →
        let cost := h.totalCost t.units t.price
        let divisor := abs64 (wrap64 (h.quantity + t.units))
        divisor ≠ 0 ∧ divisor = (h.quantity + t.units).natAbs ∧ fitsInt128 cost ∧
          fitsInt64 (cost.tdiv divisor) ∧
          (reached (trades ++ [t])).averagePrice = cost.tdiv divisor) := by
  intro h e
  have hc : h.Carries e := flat_carries.foldl hproper hfit
  refine ⟨hc.quantity_eq, fun hflat => hc.average_flat (hc.quantity_eq ▸ hflat),
    fun hheld => hc.exists_extremes (hc.quantity_eq ▸ hheld), fun t ht hnext => ?_⟩
  refine ⟨hc.distance_fits ht, fun henlarges => ?_⟩
  have hfit' : unitsFit (e.units + t.units) := hc.quantity_eq ▸ hnext
  obtain ⟨hlo, hhi⟩ := unitsFit_iff.1 hnext
  obtain ⟨hcost, hmean⟩ := hc.mean_fits ht hfit' henlarges
  have hdivisor : abs64 (wrap64 (h.quantity + t.units)) = (h.quantity + t.units).natAbs := by
    rw [wrap64_of_fits (fitsInt64_of_unitsFit hnext), abs64_eq_natAbs hlo hhi]
  have hpos := natAbs_add_of_enlarges ht.units_ne_zero henlarges
  have hunits := ht.units_ne_zero
  have haverage : reached (trades ++ [t]) = h.traded t := List.foldl_concat ..
  intro cost divisor
  have hmagnitude : divisor = (h.quantity + t.units).natAbs := hdivisor
  refine ⟨by omega, hmagnitude, hcost, ?_, ?_⟩
  · rw [hmagnitude]
    exact hmean
  · rw [haverage, hc.traded_enlarging ht hfit' henlarges, hmagnitude]

/-- A short position that is entered twice and reduced, then brought to the long side and added
to. -/
def turnedTrades : List Trade :=
  [⟨-2, 10, 1⟩, ⟨-1, 12, 1⟩, ⟨1, 20, 1⟩, ⟨-3, 17, 1⟩, ⟨7, 9, 1⟩, ⟨2, 6, 1⟩]

/-- The position ends with 4 units entered at 9 and at 6, and their average is 7. A trade of 4 more
units at 3 makes it the mean of a cost of 40 by 8 units. -/
theorem turned_within_entries :
    (reached turnedTrades).quantity = 4 ∧ entriesOf turnedTrades = ⟨4, [9, 6]⟩ ∧
    (∃ least greatest, [(9 : Int), 6].min? = some least ∧ [(9 : Int), 6].max? = some greatest ∧
      least ≤ (reached turnedTrades).averagePrice ∧
      (reached turnedTrades).averagePrice ≤ greatest) ∧
    (reached turnedTrades).averagePrice = 7 ∧
    fitsInt64 (3 - (reached turnedTrades).averagePrice) ∧
    (reached (turnedTrades ++ [⟨4, 3, 1⟩])).averagePrice = Int.tdiv 40 8 := by
  have hproper : ∀ t ∈ turnedTrades, t.Proper := by
    unfold turnedTrades
    simp only [List.forall_mem_cons, List.not_mem_nil, false_implies, implies_true, and_true]
    exact ⟨⟨by decide, by decide, by decide⟩, ⟨by decide, by decide, by decide⟩,
      ⟨by decide, by decide, by decide⟩, ⟨by decide, by decide, by decide⟩,
      ⟨by decide, by decide, by decide⟩, ⟨by decide, by decide, by decide⟩⟩
  obtain ⟨-, -, hwithin, hnext⟩ := average_within_entries turnedTrades hproper (by decide)
  obtain ⟨hdistance, hmean⟩ := hnext ⟨4, 3, 1⟩ ⟨by decide, by decide, by decide⟩ (by decide +kernel)
  obtain ⟨-, -, -, -, haverage⟩ := hmean (by decide +kernel)
  have hentries : entriesOf turnedTrades = ⟨4, [9, 6]⟩ := by decide +kernel
  rw [hentries] at hwithin
  exact ⟨by decide +kernel, hentries, hwithin (by decide +kernel), by decide +kernel, hdistance,
    haverage.trans (by decide +kernel)⟩

end Holding

end MarketReplay
