import Mathlib.Tactic.Ring
import MarketReplay.Proofs.Portfolio.Booking

/-!
# Average cost and cash

A portfolio's cash and its holdings at average cost account for its initial cash and its realized
profit, up to a drift: each time a position is opened or enlarged, the mean price is cut toward
zero, and the position loses the remainder (`Portfolio.drift_apply`). Fills that reduce, close or
flip a position lose nothing. So the drift is bounded by what the means can lose, and there is none
if they divide evenly (`Portfolio.drift_bounded`).
-/

namespace MarketReplay

/-- A quotient cut toward zero lies between bounds of the dividend's mean. -/
theorem tdiv_mem_of_mul_mem {lo hi x n : Int} (hn : 0 < n) (hlo : n * lo ≤ x) (hhi : x ≤ n * hi) :
    lo ≤ x.tdiv n ∧ x.tdiv n ≤ hi := by
  have hne : n ≠ 0 := by omega
  have hlo' := Int.tdiv_le_tdiv hn hlo
  have hhi' := Int.tdiv_le_tdiv hn hhi
  rw [Int.mul_tdiv_cancel_left _ hne] at hlo' hhi'
  exact ⟨hlo', hhi'⟩

/-- A remainder is less than the divisor in magnitude. -/
theorem natAbs_tmod_le {x n : Int} (hn : 0 < n) : ((x.tmod n).natAbs : Int) ≤ n - 1 := by
  have hlt := Nat.mod_lt x.natAbs (by omega : 0 < n.natAbs)
  rw [Int.natAbs_tmod]
  omega

theorem fitsInt64_iff {x : Int} : fitsInt64 x ↔ minInt64 ≤ x ∧ x ≤ maxInt64 := by
  unfold fitsInt64
  rw [Bool.and_eq_true, decide_eq_true_eq, decide_eq_true_eq]

/-- What is wrapped fits. -/
theorem fitsInt64_wrap64 (x : Int) : fitsInt64 (wrap64 x) := by
  have hle := Int.le_bmod (x := x) (m := 18446744073709551616) (by decide)
  have hlt := Int.bmod_lt (x := x) (m := 18446744073709551616) (by decide)
  unfold wrap64
  rw [fitsInt64_iff]
  unfold minInt64 maxInt64
  omega

namespace SortedMap

variable {κ ν : Type} [Ord κ] [Std.LawfulEqOrd κ] [DecidableEq κ]

/-- A sum over the entries is the summand of a key and the sum over the others. -/
theorem sum_entries (m : SortedMap κ ν) (key : κ) (summand : κ × ν → Int) :
    (m.entries.map summand).sum =
      ((m.get? key).map fun value => summand (key, value)).getD 0 +
        ((m.erase key).entries.map summand).sum := by
  have hothers : (m.erase key).entries = m.entries.filter fun e => ¬ e.1 = key := by
    refine List.filter_congr fun e _ => ?_
    by_cases hkey : e.1 = key
    · simp [hkey]
    · have hne : compare key e.1 ≠ .eq := fun heq => hkey (Std.LawfulEqCmp.eq_of_compare heq).symm
      simp [hkey, hne]
  have hperm := (List.filter_append_perm (fun e => decide (e.1 = key)) m.entries).map summand
  have hsum := hperm.sum_eq
  rw [List.map_append, List.sum_append, filter_entries] at hsum
  rw [hothers, ← hsum]
  cases m.get? key <;> simp

end SortedMap

/-- Two quantities that are not zero have the same sign if both are positive or both negative. -/
theorem sign_eq_sign_iff {x y : Int} (hx : x ≠ 0) (hy : y ≠ 0) :
    x.sign = y.sign ↔ 0 < x ∧ 0 < y ∨ x < 0 ∧ y < 0 := by
  rcases Int.lt_or_gt_of_ne hx with hneg | hpos <;> rcases Int.lt_or_gt_of_ne hy with hneg' | hpos'
  · simp [Int.sign_eq_neg_one_of_neg, hneg, hneg']
  · simp only [Int.sign_eq_neg_one_of_neg hneg, Int.sign_eq_one_of_pos hpos']
    omega
  · simp only [Int.sign_eq_one_of_pos hpos, Int.sign_eq_neg_one_of_neg hneg']
    omega
  · simp [Int.sign_eq_one_of_pos, hpos, hpos']

namespace Holding

/-- Whether a trade opens the position or adds to it. -/
def enlarges (h : Holding) (delta : Int) : Bool := h.quantity = 0 || h.quantity.sign = delta.sign

/-- What the units of a position and of a trade have cost together, in magnitude. -/
def totalCost (h : Holding) (delta price : Int) : Int :=
  h.quantity.natAbs * h.averagePrice + delta.natAbs * price

/-- What a unit of the multiplier loses when the mean price is cut. -/
def lost (h : Holding) (delta price : Int) : Int :=
  if h.enlarges delta then
    (h.quantity + delta).sign * (h.totalCost delta price).tmod (h.quantity + delta).natAbs
  else 0

/-- The profit of a trade that does not enlarge the position. -/
def profit (h : Holding) (delta price multiplier : Int) : Int :=
  if h.enlarges delta then 0
  else
    min (h.quantity.natAbs : Int) delta.natAbs * (price - h.averagePrice) * multiplier *
      h.quantity.sign

/-- What a position is worth at its average price. -/
def value (h : Holding) (multiplier : Int) : Int := h.quantity * h.averagePrice * multiplier

/-- Whether a trade is made without overflow or saturation: the magnitudes that are taken, the
quantity after it, the price's distance from the average and the profit fit their width. -/
def tradeFits (h : Holding) (delta price multiplier : Int) : Bool :=
  minInt64 < h.quantity && fitsInt64 (h.quantity + delta) &&
    if h.enlarges delta then decide (minInt64 < h.quantity + delta)
    else fitsInt64 (price - h.averagePrice) && fitsInt64 (h.profit delta price multiplier)

/-- Whether quantity and average are 64-bit integers. -/
structure Bounded (h : Holding) : Prop where
  quantity_fits : fitsInt64 h.quantity
  average_fits : fitsInt64 h.averagePrice

theorem flat_bounded : flat.Bounded := ⟨rfl, rfl⟩

variable {h : Holding} {delta price multiplier : Int}

theorem isFlat_iff : h.isFlat ↔ h.quantity = 0 := beq_iff_eq

/-- The quantity after a trade that fits is one of 64 bits. -/
theorem quantity_fits (hfits : h.tradeFits delta price multiplier) :
    fitsInt64 (h.quantity + delta) := by
  unfold tradeFits at hfits
  rw [Bool.and_eq_true, Bool.and_eq_true] at hfits
  exact hfits.1.2

theorem enlarges_iff (hdelta : delta ≠ 0) : h.enlarges delta ↔
    h.quantity = 0 ∨ 0 < h.quantity ∧ 0 < delta ∨ h.quantity < 0 ∧ delta < 0 := by
  unfold enlarges
  rw [Bool.or_eq_true, decide_eq_true_eq, decide_eq_true_eq]
  by_cases hzero : h.quantity = 0
  · simp [hzero]
  · rw [sign_eq_sign_iff hzero hdelta]

/-- A trade leaves quantity and average in 64 bits. -/
theorem trade_bounded (hh : h.Bounded) (hprice : fitsInt64 price) :
    (h.trade delta price multiplier).1.Bounded := by
  refine ⟨?_, ?_⟩
  · rw [trade_quantity]
    exact fitsInt64_wrap64 _
  · unfold trade weightedAverage
    simp only
    split
    · simp only [fitsInt64_wrap64]
    · simp only
      split
      · rfl
      · split
        · exact hprice
        · exact hh.average_fits

/-- With its sign, the total cost of a position that is enlarged is that of position and trade. -/
theorem sign_mul_totalCost (hdelta : delta ≠ 0) (henlarges : h.enlarges delta) :
    (h.quantity + delta).sign * h.totalCost delta price =
      h.quantity * h.averagePrice + delta * price := by
  have hsigned : (h.quantity + delta).sign * h.quantity.natAbs = h.quantity ∧
      (h.quantity + delta).sign * delta.natAbs = delta := by
    rcases (enlarges_iff hdelta).1 henlarges with hzero | ⟨hpos, hpos'⟩ | ⟨hneg, hneg'⟩
    · rw [hzero, Int.zero_add]
      exact ⟨Int.mul_zero _, Int.sign_mul_natAbs delta⟩
    · rw [Int.sign_eq_one_of_pos (by omega)]
      omega
    · rw [Int.sign_eq_neg_one_of_neg (by omega)]
      omega
  rw [totalCost, Int.mul_add, ← Int.mul_assoc, ← Int.mul_assoc, hsigned.1, hsigned.2]

/-- The units of a position that a trade closes, with the sign of the position. -/
def closed (h : Holding) (delta : Int) : Int :=
  min (h.quantity.natAbs : Int) delta.natAbs * h.quantity.sign

theorem profit_eq_closed (henlarges : ¬ h.enlarges delta) :
    h.profit delta price multiplier =
      h.closed delta * (price - h.averagePrice) * multiplier := by
  rw [profit, if_neg henlarges, closed]
  ring

/-- A trade that does not enlarge a position goes the other way. -/
theorem opposite_of_not_enlarges (hdelta : delta ≠ 0) (henlarges : ¬ h.enlarges delta) :
    0 < h.quantity ∧ delta < 0 ∨ h.quantity < 0 ∧ 0 < delta := by
  rw [enlarges_iff hdelta] at henlarges
  omega

/-- A trade that leaves some of the position closes its own units. -/
theorem closed_of_left (hdelta : delta ≠ 0) (henlarges : ¬ h.enlarges delta)
    (hflat : h.quantity + delta ≠ 0) (hsign : (h.quantity + delta).sign = h.quantity.sign) :
    h.closed delta = -delta := by
  have hopposite := opposite_of_not_enlarges hdelta henlarges
  rw [sign_eq_sign_iff hflat (by omega)] at hsign
  unfold closed
  rcases hopposite with ⟨hpos, hneg⟩ | ⟨hneg, hpos⟩
  · rw [Int.sign_eq_one_of_pos hpos]
    omega
  · rw [Int.sign_eq_neg_one_of_neg hneg]
    omega

/-- A trade through flat, or to it, closes the whole position. -/
theorem closed_of_crossed (hdelta : delta ≠ 0) (henlarges : ¬ h.enlarges delta)
    (hcrossed : h.quantity + delta = 0 ∨ (h.quantity + delta).sign ≠ h.quantity.sign) :
    h.closed delta = h.quantity := by
  have hopposite := opposite_of_not_enlarges hdelta henlarges
  have hmore : h.quantity.natAbs ≤ delta.natAbs := by
    rcases hcrossed with hflat | hsign
    · omega
    · by_cases hflat : h.quantity + delta = 0
      · omega
      · rw [Ne, sign_eq_sign_iff hflat (by omega)] at hsign
        omega
  unfold closed
  rcases hopposite with ⟨hpos, hneg⟩ | ⟨hneg, hpos⟩
  · rw [Int.sign_eq_one_of_pos hpos]
    omega
  · rw [Int.sign_eq_neg_one_of_neg hneg]
    omega

/-- An enlarged position has its own units and those of the trade. -/
theorem natAbs_add_of_enlarges (hdelta : delta ≠ 0) (henlarges : h.enlarges delta) :
    ((h.quantity + delta).natAbs : Int) = h.quantity.natAbs + delta.natAbs := by
  rcases (enlarges_iff hdelta).1 henlarges with hzero | ⟨hpos, hpos'⟩ | ⟨hneg, hneg'⟩ <;> omega

/-- What an enlarged position has cost lies between its units at bounds of its average and of the
price; without a position before, the average does not count. -/
theorem totalCost_mem {lo hi : Int} (hdelta : delta ≠ 0) (henlarges : h.enlarges delta)
    (haverage : h.quantity ≠ 0 → lo ≤ h.averagePrice ∧ h.averagePrice ≤ hi) (hlo : lo ≤ price)
    (hhi : price ≤ hi) :
    ((h.quantity + delta).natAbs : Int) * lo ≤ h.totalCost delta price ∧
      h.totalCost delta price ≤ (h.quantity + delta).natAbs * hi := by
  rw [natAbs_add_of_enlarges hdelta henlarges, Int.add_mul, Int.add_mul]
  have hnewLo : (delta.natAbs : Int) * lo ≤ delta.natAbs * price :=
    Int.mul_le_mul_of_nonneg_left hlo (by omega)
  have hnewHi : (delta.natAbs : Int) * price ≤ delta.natAbs * hi :=
    Int.mul_le_mul_of_nonneg_left hhi (by omega)
  have hheld : (h.quantity.natAbs : Int) * lo ≤ h.quantity.natAbs * h.averagePrice ∧
      (h.quantity.natAbs : Int) * h.averagePrice ≤ h.quantity.natAbs * hi := by
    by_cases hzero : h.quantity = 0
    · simp [hzero]
    · obtain ⟨havgLo, havgHi⟩ := haverage hzero
      exact ⟨Int.mul_le_mul_of_nonneg_left havgLo (by omega),
        Int.mul_le_mul_of_nonneg_left havgHi (by omega)⟩
  exact ⟨Int.add_le_add hheld.1 hnewLo, Int.add_le_add hheld.2 hnewHi⟩

section Trades

variable (hh : h.Bounded) (hwidth : delta.natAbs ≤ maxInt64)
include hh hwidth

omit hwidth in
/-- A trade that enlarges a position adds magnitudes, and the mean price is exact but for the
cut. -/
theorem trade_enlarging (hdelta : delta ≠ 0) (hprice : fitsInt64 price)
    (hfits : h.tradeFits delta price multiplier) (henlarges : h.enlarges delta) :
    h.trade delta price multiplier =
      (⟨h.quantity + delta,
        (h.totalCost delta price).tdiv (h.quantity + delta).natAbs⟩, 0) := by
  unfold tradeFits at hfits
  rw [if_pos henlarges] at hfits
  simp only [Bool.and_eq_true, decide_eq_true_eq] at hfits
  obtain ⟨⟨hbefore, hafter⟩, hmin⟩ := hfits
  obtain ⟨hlo, hhi⟩ := fitsInt64_iff.1 hafter
  have hquantity := (fitsInt64_iff.1 hh.quantity_fits).2
  obtain ⟨hpriceLo, hpriceHi⟩ := fitsInt64_iff.1 hprice
  have hmagnitude := natAbs_add_of_enlarges hdelta henlarges
  -- The total cost lies between the magnitude at the least and at the greatest amount.
  obtain ⟨hcostLo, hcostHi⟩ := totalCost_mem hdelta henlarges
    (fun _ => fitsInt64_iff.1 hh.average_fits) hpriceLo hpriceHi
  have hmean := tdiv_mem_of_mul_mem (by omega) hcostLo hcostHi
  have hbranch : h.quantity = 0 ∨ h.quantity.sign = delta.sign := by
    simpa [enlarges] using henlarges
  unfold trade weightedAverage
  rw [if_pos hbranch, wrap64_of_fits hafter, abs64_eq_natAbs hbefore hquantity,
    abs64_eq_natAbs (by unfold minInt64 maxInt64 at *; omega) (by unfold maxInt64 at *; omega),
    abs64_eq_natAbs hmin hhi]
  exact congrArg (fun average => ((⟨h.quantity + delta, average⟩ : Holding), (0 : Int)))
    (wrap64_of_fits (fitsInt64_iff.2 hmean))

/-- A trade that does not enlarge a position closes units at their average. -/
theorem trade_reducing (hfits : h.tradeFits delta price multiplier)
    (henlarges : ¬ h.enlarges delta) :
    h.trade delta price multiplier =
      (⟨h.quantity + delta,
        if h.quantity + delta = 0 then 0
        else if (h.quantity + delta).sign ≠ h.quantity.sign then price
        else h.averagePrice⟩, h.profit delta price multiplier) := by
  unfold tradeFits at hfits
  rw [if_neg henlarges] at hfits
  simp only [Bool.and_eq_true, decide_eq_true_eq] at hfits
  obtain ⟨⟨hbefore, hafter⟩, -⟩ := hfits
  have hquantity := (fitsInt64_iff.1 hh.quantity_fits).2
  have hbranch : ¬ (h.quantity = 0 ∨ h.quantity.sign = delta.sign) := by
    simpa [enlarges] using henlarges
  unfold trade closingProfit closedWorth
  rw [if_neg hbranch, wrap64_of_fits hafter, abs64_eq_natAbs hbefore hquantity,
    abs64_eq_natAbs (by unfold minInt64 maxInt64 at *; omega) (by unfold maxInt64 at *; omega),
    profit, if_neg henlarges]

/-- A trade adds its cost and its profit to the value of the position, less what is lost when the
mean price is cut. -/
theorem trade_value (hdelta : delta ≠ 0) (hprice : fitsInt64 price)
    (hfits : h.tradeFits delta price multiplier) :
    (h.trade delta price multiplier).1.value multiplier =
      h.value multiplier + delta * price * multiplier + h.profit delta price multiplier -
        h.lost delta price * multiplier := by
  by_cases henlarges : h.enlarges delta
  · rw [trade_enlarging hh hdelta hprice hfits henlarges, lost, profit, if_pos henlarges,
      if_pos henlarges]
    -- The magnitude times the quotient is the total cost without the remainder.
    have hquotient : ((h.quantity + delta).natAbs : Int) *
        (h.totalCost delta price).tdiv (h.quantity + delta).natAbs =
          h.totalCost delta price - (h.totalCost delta price).tmod (h.quantity + delta).natAbs := by
      have hsum := Int.mul_tdiv_add_tmod (h.totalCost delta price) (h.quantity + delta).natAbs
      omega
    have hsigned := Int.sign_mul_natAbs (h.quantity + delta)
    calc (h.quantity + delta) *
          (h.totalCost delta price).tdiv (h.quantity + delta).natAbs * multiplier
        = (h.quantity + delta).sign * (((h.quantity + delta).natAbs : Int) *
            (h.totalCost delta price).tdiv (h.quantity + delta).natAbs) * multiplier := by
          rw [← Int.mul_assoc, hsigned]
      _ = (h.quantity + delta).sign * h.totalCost delta price * multiplier -
            (h.quantity + delta).sign *
              (h.totalCost delta price).tmod (h.quantity + delta).natAbs * multiplier := by
          rw [hquotient]
          ring
      _ = _ := by
          rw [sign_mul_totalCost hdelta henlarges, value]
          ring
  · rw [trade_reducing hh hwidth hfits henlarges, lost, if_neg henlarges,
      profit_eq_closed henlarges]
    unfold value
    by_cases hflat : h.quantity + delta = 0
    · have hopposite : delta = -h.quantity := by omega
      rw [if_pos hflat, closed_of_crossed hdelta henlarges (.inl hflat), hopposite]
      ring
    · by_cases hsign : (h.quantity + delta).sign = h.quantity.sign
      · rw [if_neg hflat, if_neg (fun hother => hother hsign),
          closed_of_left hdelta henlarges hflat hsign]
        ring
      · rw [if_neg hflat, if_pos hsign, closed_of_crossed hdelta henlarges (.inr hsign)]
        ring

omit hh hwidth in
/-- The profit of a trade that fits is one of 64 bits. -/
theorem profit_fits (hfits : h.tradeFits delta price multiplier) :
    fitsInt64 (h.profit delta price multiplier) := by
  unfold tradeFits at hfits
  rw [Bool.and_eq_true] at hfits
  obtain ⟨-, hfits⟩ := hfits
  split at hfits
  · rename_i henlarges
    rw [profit, if_pos henlarges]
    rfl
  · rw [Bool.and_eq_true] at hfits
    exact hfits.2

/-- The profit of a trade is exact. -/
theorem trade_profit (hdelta : delta ≠ 0) (hprice : fitsInt64 price)
    (hfits : h.tradeFits delta price multiplier) :
    (h.trade delta price multiplier).2 = h.profit delta price multiplier := by
  by_cases henlarges : h.enlarges delta
  · rw [trade_enlarging hh hdelta hprice hfits henlarges, profit, if_pos henlarges]
  · rw [trade_reducing hh hwidth hfits henlarges]

end Trades

/-- An enlarged position loses less than its magnitude per unit of the multiplier. -/
theorem natAbs_lost_le (hdelta : delta ≠ 0) (henlarges : h.enlarges delta) :
    ((h.lost delta price).natAbs : Int) ≤ (h.quantity + delta).natAbs - 1 := by
  have hafter : h.quantity + delta ≠ 0 := by
    rcases (enlarges_iff hdelta).1 henlarges with hzero | ⟨hpos, hpos'⟩ | ⟨hneg, hneg'⟩ <;> omega
  have hsign : (h.quantity + delta).sign.natAbs = 1 := Int.natAbs_sign_of_ne_zero hafter
  rw [lost, if_pos henlarges, Int.natAbs_mul, hsign, Nat.one_mul]
  exact natAbs_tmod_le (by omega)

/-- Nothing is lost where the mean price divides evenly. -/
theorem lost_eq_zero (hdvd : ((h.quantity + delta).natAbs : Int) ∣ h.totalCost delta price) :
    h.lost delta price = 0 := by
  unfold lost
  split
  · rw [Int.tmod_eq_zero_of_dvd hdvd, Int.mul_zero]
  · rfl

end Holding

/-! ### Fills -/

namespace Fill

/-- Whether a fill has amounts of 64 bits, a positive quantity, and the multiplier of its symbol. -/
structure Proper (f : Fill) : Prop where
  pos : 0 < f.quantity
  quantity_fits : fitsInt64 f.quantity
  price_fits : fitsInt64 f.price
  multiplier_eq : f.multiplier = f.symbol.multiplier

/-- What a fill adds to the position in its symbol. -/
def delta (f : Fill) : Int :=
  match f.side with
  | .buy => f.quantity
  | .sell => -f.quantity

/-- What a fill costs; a sale costs less than nothing. -/
def cost (f : Fill) : Int := f.delta * f.price * f.multiplier

variable {f : Fill}

theorem Proper.natAbs_delta (hf : f.Proper) : (f.delta.natAbs : Int) = f.quantity := by
  have hpos := hf.pos
  unfold delta
  cases f.side <;> simp only <;> omega

theorem Proper.delta_ne_zero (hf : f.Proper) : f.delta ≠ 0 := by
  have hnatAbs := hf.natAbs_delta
  have hpos := hf.pos
  omega

theorem Proper.width (hf : f.Proper) : f.delta.natAbs ≤ maxInt64 := by
  rw [hf.natAbs_delta]
  exact (fitsInt64_iff.1 hf.quantity_fits).2

theorem Proper.signedQuantity_eq (hf : f.Proper) : f.signedQuantity = f.delta := by
  have hpos := hf.pos
  obtain ⟨-, hhi⟩ := fitsInt64_iff.1 hf.quantity_fits
  unfold signedQuantity delta
  cases f.side with
  | buy => rfl
  | sell =>
      refine wrap64_of_fits (fitsInt64_iff.2 ?_)
      unfold minInt64 maxInt64 at *
      omega

theorem Proper.multiplier_pos (hf : f.Proper) : 0 < f.multiplier := by
  rw [hf.multiplier_eq]
  cases f.symbol <;> simp [Symbol.multiplier]

end Fill

namespace Portfolio

/-- The holding of a symbol, flat if there is none. -/
def held (p : Portfolio) (symbol : Symbol) : Holding := (p.holdings.get? symbol).getD .flat

/-- Whether a fill opens a position or adds to one. -/
def enlarges (p : Portfolio) (f : Fill) : Bool := (p.held f.symbol).enlarges f.delta

/-- Whether a fill is applied without saturation or overflow: its worth, the cash after it, the
trade of its symbol's holding and the realized profit after it fit 64 bits. -/
def fillFits (p : Portfolio) (f : Fill) : Bool :=
  fitsInt64 (f.quantity * f.price * f.multiplier) && fitsInt64 (p.cash - f.cost) &&
    (p.held f.symbol).tradeFits f.delta f.price f.multiplier &&
    fitsInt64 (p.realized + (p.held f.symbol).profit f.delta f.price f.multiplier)

/-- Whether fills are applied in turn without saturation or overflow. -/
def fillsFit : Portfolio → List Fill → Bool
  | _, [] => true
  | p, f :: rest => p.fillFits f && fillsFit (p.apply f) rest

/-- What the holdings are worth at their average prices. -/
def bookValue (p : Portfolio) : Int :=
  (p.holdings.entries.map fun e => e.2.value e.1.multiplier).sum

/-- What cash and holdings at average cost have beyond the initial cash and the realized profit. -/
def drift (p : Portfolio) : Int := p.cash + p.bookValue - p.initialCash - p.realized

/-- How far fills can drift: each that opens a position or adds to one by one less than the
magnitude it makes, at its multiplier. -/
def allowance : Portfolio → List Fill → Int
  | _, [] => 0
  | p, f :: rest =>
    (if p.enlarges f then (((p.apply f).quantity f.symbol).natAbs - 1) * f.multiplier else 0) +
      allowance (p.apply f) rest

/-- Whether the mean price divides evenly each time a position is opened or enlarged. -/
def dividesEvenly : Portfolio → List Fill → Bool
  | _, [] => true
  | p, f :: rest =>
    (!p.enlarges f ||
        decide ((((p.apply f).quantity f.symbol).natAbs : Int) ∣
          (p.held f.symbol).totalCost f.delta f.price)) &&
      dividesEvenly (p.apply f) rest

/-- Whether every holding has a quantity and an average of 64 bits. -/
def Bounded (p : Portfolio) : Prop := ∀ symbol, (p.held symbol).Bounded

variable {p : Portfolio} {f : Fill}

/-- The book value is that of one holding and of the others. -/
theorem bookValue_eq (p : Portfolio) (symbol : Symbol) :
    p.bookValue = (p.held symbol).value symbol.multiplier +
      ((p.holdings.erase symbol).entries.map fun e => e.2.value e.1.multiplier).sum := by
  unfold bookValue held
  rw [p.holdings.sum_entries symbol]
  cases p.holdings.get? symbol with
  | none => simp [Holding.value, Holding.flat]
  | some h => rfl

/-- The trade of a fill, in exact amounts. -/
def traded (p : Portfolio) (f : Fill) : Holding :=
  ((p.held f.symbol).trade f.delta f.price f.multiplier).1

theorem holdings_apply (hf : f.Proper) :
    (p.apply f).holdings =
      if (p.traded f).isFlat then p.holdings.erase f.symbol
      else p.holdings.insert f.symbol (p.traded f) := by
  unfold traded held apply
  rw [hf.signedQuantity_eq]

/-- A holding after a fill: that of its symbol is traded, the others stay. -/
theorem held_apply (hf : f.Proper) (symbol : Symbol) :
    (p.apply f).held symbol =
      if symbol = f.symbol then (if (p.traded f).isFlat then .flat else p.traded f)
      else p.held symbol := by
  unfold held
  rw [holdings_apply hf]
  by_cases hflat : (p.traded f).isFlat
  · rw [if_pos hflat, if_pos hflat, SortedMap.get?_erase]
    by_cases hsymbol : symbol = f.symbol <;> simp [hsymbol]
  · rw [if_neg hflat, if_neg hflat, SortedMap.get?_insert]
    by_cases hsymbol : symbol = f.symbol <;> simp [hsymbol]

/-- A fill leaves the holdings of other symbols. -/
theorem erase_apply (hf : f.Proper) :
    (p.apply f).holdings.erase f.symbol = p.holdings.erase f.symbol := by
  refine SortedMap.ext_get? fun symbol => ?_
  rw [SortedMap.get?_erase, SortedMap.get?_erase, holdings_apply hf]
  by_cases hsymbol : symbol = f.symbol
  · rw [if_pos hsymbol, if_pos hsymbol]
  · rw [if_neg hsymbol, if_neg hsymbol]
    split
    · rw [SortedMap.get?_erase, if_neg hsymbol]
    · rw [SortedMap.get?_insert, if_neg hsymbol]

/-- The book value after a fill: its symbol's holding is traded. -/
theorem bookValue_apply (hf : f.Proper) :
    (p.apply f).bookValue =
      p.bookValue - (p.held f.symbol).value f.multiplier + (p.traded f).value f.multiplier := by
  have hvalue : ((p.apply f).held f.symbol).value f.multiplier =
      (p.traded f).value f.multiplier := by
    rw [held_apply hf, if_pos rfl]
    split
    · rename_i hflat
      simp [Holding.value, Holding.flat, Holding.isFlat_iff.1 hflat]
    · rfl
  have hbefore := p.bookValue_eq f.symbol
  have hafter := (p.apply f).bookValue_eq f.symbol
  rw [erase_apply hf] at hafter
  rw [← hf.multiplier_eq] at hbefore hafter
  omega

/-- The conditions under which a fill is applied exactly. -/
theorem fillFits_iff : p.fillFits f = true ↔
    fitsInt64 (f.quantity * f.price * f.multiplier) ∧ fitsInt64 (p.cash - f.cost) ∧
      (p.held f.symbol).tradeFits f.delta f.price f.multiplier ∧
      fitsInt64 (p.realized + (p.held f.symbol).profit f.delta f.price f.multiplier) := by
  simp only [fillFits, Bool.and_eq_true, and_assoc]

/-- A fill takes its cost from the cash. -/
theorem cash_apply (hfits : p.fillFits f) : (p.apply f).cash = p.cash - f.cost := by
  obtain ⟨hworth, hcash, -, -⟩ := fillFits_iff.1 hfits
  have hexact : f.cash = f.quantity * f.price * f.multiplier := by
    rw [Fill.cash, Fill.worth, clamp64_of_fits hworth]
  unfold apply
  rw [hexact]
  unfold Fill.cost Fill.delta at hcash ⊢
  cases hside : f.side with
  | buy =>
      rw [hside] at hcash
      exact clamp64_of_fits hcash
  | sell =>
      -- A sale adds its worth to the cash, which is to take its negative cost.
      rw [hside] at hcash
      simp only [Int.neg_mul, Int.sub_neg] at hcash ⊢
      exact clamp64_of_fits hcash

/-- A fill adds its profit to the realized profit. -/
theorem realized_apply (hp : p.Bounded) (hf : f.Proper) (hfits : p.fillFits f) :
    (p.apply f).realized =
      p.realized + (p.held f.symbol).profit f.delta f.price f.multiplier := by
  obtain ⟨-, -, htrade, hrealized⟩ := fillFits_iff.1 hfits
  have hprofit := Holding.trade_profit (hp f.symbol) hf.width hf.delta_ne_zero hf.price_fits htrade
  have hbooked : (p.apply f).realized = clamp64 (p.realized +
      clamp64 ((p.held f.symbol).trade f.signedQuantity f.price f.multiplier).2) := rfl
  rw [hbooked, hf.signedQuantity_eq, hprofit, clamp64_of_fits (Holding.profit_fits htrade),
    clamp64_of_fits hrealized]

/-- A fill changes the drift by what is lost when a mean price is cut, and by nothing else. -/
theorem drift_apply (hp : p.Bounded) (hf : f.Proper) (hfits : p.fillFits f) :
    (p.apply f).drift =
      p.drift - (p.held f.symbol).lost f.delta f.price * f.multiplier := by
  obtain ⟨-, -, htrade, -⟩ := fillFits_iff.1 hfits
  have hvalue := Holding.trade_value (hp f.symbol) hf.width hf.delta_ne_zero hf.price_fits htrade
  have hinitial : (p.apply f).initialCash = p.initialCash := rfl
  have hcost : f.delta * f.price * f.multiplier = f.cost := rfl
  unfold drift
  rw [cash_apply hfits, realized_apply hp hf hfits, bookValue_apply hf, hinitial, traded, hvalue,
    hcost]
  omega

/-- A fill leaves holdings of 64 bits. -/
theorem bounded_apply (hp : p.Bounded) (hf : f.Proper) : (p.apply f).Bounded := by
  intro symbol
  rw [held_apply hf]
  split
  · split
    · exact Holding.flat_bounded
    · exact Holding.trade_bounded (hp f.symbol) hf.price_fits
  · exact hp symbol

/-- The quantity after a fill. -/
theorem quantity_apply (hf : f.Proper) (hfits : p.fillFits f) :
    (p.apply f).quantity f.symbol = (p.held f.symbol).quantity + f.delta := by
  obtain ⟨-, -, htrade, -⟩ := fillFits_iff.1 hfits
  have hquantity : (p.apply f).quantity f.symbol = ((p.apply f).held f.symbol).quantity := by
    unfold quantity held
    cases (p.apply f).holdings.get? f.symbol <;> rfl
  have htraded : (p.traded f).quantity = (p.held f.symbol).quantity + f.delta := by
    rw [traded, Holding.trade_quantity, wrap64_of_fits (Holding.quantity_fits htrade)]
  rw [hquantity, held_apply hf, if_pos rfl, ← htraded]
  split
  · rename_i hflat
    exact (Holding.isFlat_iff.1 hflat).symm
  · rfl

/-! ### The drift -/

/-- A fill that neither opens a position nor adds to one leaves the drift. -/
theorem drift_of_not_enlarges (hp : p.Bounded) (hf : f.Proper) (hfits : p.fillFits f)
    (henlarges : ¬ p.enlarges f) : (p.apply f).drift = p.drift := by
  have hnone : (p.held f.symbol).lost f.delta f.price = 0 := if_neg henlarges
  rw [drift_apply hp hf hfits, hnone, Int.zero_mul, Int.sub_zero]

/-- A fill of which the mean price divides evenly leaves the drift. -/
theorem drift_of_even (hp : p.Bounded) (hf : f.Proper) (hfits : p.fillFits f)
    (heven : (((p.apply f).quantity f.symbol).natAbs : Int) ∣
      (p.held f.symbol).totalCost f.delta f.price) : (p.apply f).drift = p.drift := by
  rw [quantity_apply hf hfits] at heven
  rw [drift_apply hp hf hfits, Holding.lost_eq_zero heven, Int.zero_mul, Int.sub_zero]

/-- A fill drifts by less than the magnitude that it makes, per unit of the multiplier. -/
theorem natAbs_drift_apply (hp : p.Bounded) (hf : f.Proper) (hfits : p.fillFits f)
    (henlarges : p.enlarges f) :
    (((p.apply f).drift - p.drift).natAbs : Int) ≤
      (((p.apply f).quantity f.symbol).natAbs - 1) * f.multiplier := by
  have hlost : (((p.held f.symbol).lost f.delta f.price).natAbs : Int) ≤
      ((p.held f.symbol).quantity + f.delta).natAbs - 1 :=
    Holding.natAbs_lost_le hf.delta_ne_zero henlarges
  have hpos := hf.multiplier_pos
  have hchange : (p.apply f).drift - p.drift =
      -((p.held f.symbol).lost f.delta f.price * f.multiplier) := by
    rw [drift_apply hp hf hfits]
    omega
  rw [hchange, quantity_apply hf hfits, Int.natAbs_neg, Int.natAbs_mul, Int.natCast_mul,
    Int.natAbs_of_nonneg hpos.le]
  exact Int.mul_le_mul_of_nonneg_right hlost hpos.le

/-! ### Fills in turn -/

section InTurn

variable {fills : List Fill}

/-- Fills fit in turn if those before a point do, and those after it from there. -/
theorem fillsFit_append (earlier later : List Fill) : p.fillsFit (earlier ++ later) =
    (p.fillsFit earlier && (earlier.foldl apply p).fillsFit later) := by
  induction earlier generalizing p with
  | nil => rfl
  | cons f rest ih => rw [List.cons_append, fillsFit, fillsFit, ih, Bool.and_assoc, List.foldl_cons]

/-- Fills leave holdings of 64 bits. -/
theorem bounded_foldl (hp : p.Bounded) (hproper : ∀ f ∈ fills, f.Proper) :
    (fills.foldl apply p).Bounded := by
  induction fills generalizing p with
  | nil => exact hp
  | cons f rest ih =>
      obtain ⟨hf, hrest⟩ := List.forall_mem_cons.1 hproper
      exact ih (bounded_apply hp hf) hrest

/-- Fills drift no further than they may. -/
theorem drift_foldl_le (hp : p.Bounded) (hproper : ∀ f ∈ fills, f.Proper)
    (hfits : p.fillsFit fills) :
    (((fills.foldl apply p).drift - p.drift).natAbs : Int) ≤ p.allowance fills := by
  induction fills generalizing p with
  | nil => simp [allowance]
  | cons f rest ih =>
      obtain ⟨hf, hrest⟩ := List.forall_mem_cons.1 hproper
      rw [fillsFit, Bool.and_eq_true] at hfits
      have hlater := ih (bounded_apply hp hf) hrest hfits.2
      rw [List.foldl_cons, allowance]
      split
      · rename_i henlarges
        have hstep := natAbs_drift_apply hp hf hfits.1 henlarges
        omega
      · rename_i henlarges
        have hstep := drift_of_not_enlarges hp hf hfits.1 henlarges
        omega

/-- Fills of which every mean price divides evenly do not drift. -/
theorem drift_foldl_of_even (hp : p.Bounded) (hproper : ∀ f ∈ fills, f.Proper)
    (hfits : p.fillsFit fills) (heven : p.dividesEvenly fills) :
    (fills.foldl apply p).drift = p.drift := by
  induction fills generalizing p with
  | nil => rfl
  | cons f rest ih =>
      obtain ⟨hf, hrest⟩ := List.forall_mem_cons.1 hproper
      rw [fillsFit, Bool.and_eq_true] at hfits
      rw [dividesEvenly, Bool.and_eq_true, Bool.or_eq_true, Bool.not_eq_true',
        decide_eq_true_eq] at heven
      have hstep : (p.apply f).drift = p.drift := by
        rcases heven.1 with henlarges | hdvd
        · exact drift_of_not_enlarges hp hf hfits.1 (Bool.not_eq_true _ ▸ henlarges)
        · exact drift_of_even hp hf hfits.1 hdvd
      rw [List.foldl_cons, ih (bounded_apply hp hf) hrest hfits.2 heven.2, hstep]

/-- Fills keep the initial cash. -/
theorem initialCash_foldl (p : Portfolio) (fills : List Fill) :
    (fills.foldl apply p).initialCash = p.initialCash := by
  induction fills generalizing p with
  | nil => rfl
  | cons f rest ih => exact ih (p.apply f)

end InTurn

theorem ofCash_bounded (cash : Int) : (ofCash cash).Bounded := fun _ => Holding.flat_bounded

theorem ofCash_drift (cash : Int) : (ofCash cash).drift = 0 := by
  have hvalue : (ofCash cash).bookValue = 0 := rfl
  unfold drift
  rw [hvalue]
  simp [ofCash]

/-- Take proper fills that are applied to a portfolio of cash alone without saturation or overflow.
Cash and holdings at average cost are worth the initial cash and the realized profit but for a
drift. A fill that reduces, closes or flips a position leaves it; it is bounded by what the fills
that open a position or add to one may lose, each less than one unit of price for each unit held
after it; and if their mean prices divide evenly there is none, so that without holdings cash has
grown by the realized profit. -/
theorem drift_bounded (initial : Int) (fills : List Fill) (hproper : ∀ f ∈ fills, f.Proper)
    (hfits : (ofCash initial).fillsFit fills) :
    (∀ earlier f later, fills = earlier ++ f :: later →
      ¬ (earlier.foldl apply (ofCash initial)).enlarges f →
      ((earlier.foldl apply (ofCash initial)).apply f).drift =
        (earlier.foldl apply (ofCash initial)).drift) ∧
    ((fills.foldl apply (ofCash initial)).drift.natAbs : Int) ≤
      (ofCash initial).allowance fills ∧
    ((ofCash initial).dividesEvenly fills →
      (fills.foldl apply (ofCash initial)).drift = 0 ∧
        ((fills.foldl apply (ofCash initial)).holdings.isEmpty →
          (fills.foldl apply (ofCash initial)).cash - initial =
            (fills.foldl apply (ofCash initial)).realized)) := by
  refine ⟨?_, ?_, fun heven => ?_⟩
  · rintro earlier f later rfl henlarges
    obtain ⟨hearlier, hlater⟩ := List.forall_mem_append.1 hproper
    rw [fillsFit_append, Bool.and_eq_true, fillsFit, Bool.and_eq_true] at hfits
    exact drift_of_not_enlarges (bounded_foldl (ofCash_bounded initial) hearlier)
      (hlater f List.mem_cons_self) hfits.2.1 henlarges
  · have hdrift := drift_foldl_le (ofCash_bounded initial) hproper hfits
    rwa [ofCash_drift, Int.sub_zero] at hdrift
  · have hdrift := drift_foldl_of_even (ofCash_bounded initial) hproper hfits heven
    rw [ofCash_drift] at hdrift
    refine ⟨hdrift, fun hempty => ?_⟩
    have hinitial := initialCash_foldl (ofCash initial) fills
    have hvalue : (fills.foldl apply (ofCash initial)).bookValue = 0 := by
      have hnil := List.isEmpty_iff.1 hempty
      unfold bookValue
      rw [hnil]
      rfl
    unfold drift at hdrift
    rw [hvalue, hinitial] at hdrift
    have hcash : (ofCash initial).initialCash = initial := rfl
    omega

/-- Fills of two symbols that open, add to and flip positions at means that do not divide evenly. -/
def unevenFills : List Fill :=
  let spy := Symbol.equity "SPY"
  let call := Symbol.option ⟨"TWX", ⟨735404, by decide, by decide⟩, 70000000, .call, .american⟩
  [⟨spy, .buy, 3, 10, 1⟩, ⟨call, .buy, 3, 5, 100⟩, ⟨spy, .buy, 2, 11, 1⟩, ⟨call, .buy, 4, 6, 100⟩,
    ⟨spy, .sell, 7, 12, 1⟩, ⟨spy, .sell, 1, 10, 1⟩]

/-- Fills that end without a position, at means that divide evenly. -/
def evenFills : List Fill :=
  let spy := Symbol.equity "SPY"
  [⟨spy, .sell, 2, 10, 1⟩, ⟨spy, .sell, 2, 12, 1⟩, ⟨spy, .buy, 5, 15, 1⟩, ⟨spy, .sell, 1, 17, 1⟩]

/-- The uneven fills drift by 401 where they may drift by 808; the fill that flips does not add to
it. The even fills lose 14 in all, and so does the cash. -/
theorem unevenFills_drift :
    ((unevenFills.foldl apply (ofCash 1000000)).drift = -401 ∧
      (ofCash 1000000).allowance unevenFills = 808 ∧
      ((unevenFills.foldl apply (ofCash 1000000)).drift.natAbs : Int) ≤
        (ofCash 1000000).allowance unevenFills) ∧
    ((unevenFills.take 5).foldl apply (ofCash 1000000)).drift =
      ((unevenFills.take 4).foldl apply (ofCash 1000000)).drift ∧
    (ofCash 1000000).dividesEvenly evenFills ∧
    (evenFills.foldl apply (ofCash 1000000)).cash - 1000000 =
      (evenFills.foldl apply (ofCash 1000000)).realized ∧
    (evenFills.foldl apply (ofCash 1000000)).realized = -14 := by
  have huneven : ∀ f ∈ unevenFills, f.Proper := by
    unfold unevenFills
    simp only [List.forall_mem_cons, List.not_mem_nil, false_implies, implies_true, and_true]
    exact ⟨⟨by decide, rfl, rfl, rfl⟩, ⟨by decide, rfl, rfl, rfl⟩, ⟨by decide, rfl, rfl, rfl⟩,
      ⟨by decide, rfl, rfl, rfl⟩, ⟨by decide, rfl, rfl, rfl⟩, ⟨by decide, rfl, rfl, rfl⟩⟩
  have heven : ∀ f ∈ evenFills, f.Proper := by
    unfold evenFills
    simp only [List.forall_mem_cons, List.not_mem_nil, false_implies, implies_true, and_true]
    exact ⟨⟨by decide, rfl, rfl, rfl⟩, ⟨by decide, rfl, rfl, rfl⟩, ⟨by decide, rfl, rfl, rfl⟩,
      ⟨by decide, rfl, rfl, rfl⟩⟩
  obtain ⟨hkept, hbound, -⟩ := drift_bounded 1000000 unevenFills huneven (by decide +kernel)
  obtain ⟨-, -, hnone⟩ := drift_bounded 1000000 evenFills heven (by decide +kernel)
  have hdivides : (ofCash 1000000).dividesEvenly evenFills := by decide +kernel
  have hflip := hkept (unevenFills.take 4) (unevenFills.get ⟨4, by decide⟩) (unevenFills.drop 5) rfl
    (by decide +kernel)
  exact ⟨⟨by decide +kernel, by decide +kernel, hbound⟩, hflip, hdivides,
    (hnone hdivides).2 (by decide +kernel), by decide +kernel⟩

end Portfolio

end MarketReplay
