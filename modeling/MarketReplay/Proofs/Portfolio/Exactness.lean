import MarketReplay.Proofs.Civil.Moments
import MarketReplay.Proofs.Portfolio.AverageCost

/-!
# Where products of money are in range

A quantity times a price fits 127 bits. With the multiplier of a contract it need not fit 128, and
does exactly if the amount is at most `contractRoom` (`fitsInt128_mul_multiplier_iff`). There
estimated costs, booked cash, realized profit and marked values are the exact products kept within
64 bits; beyond it the program stops at the product, and nothing is accepted or booked
(`products_exact_iff`).
-/

namespace MarketReplay

/-- The greatest amount of which 100 fit 128 bits. -/
def contractRoom : Nat := 1701411834604692317316873037158841057

/-- Whether an amount times the multiplier of a symbol fits 128 bits. -/
def Symbol.Carries (symbol : Symbol) (amount : Int) : Prop :=
  symbol.isDerivative = false ∨ amount.natAbs ≤ contractRoom

instance (symbol : Symbol) (amount : Int) : Decidable (symbol.Carries amount) :=
  inferInstanceAs (Decidable (_ ∨ _))

theorem fitsInt128_iff {x : Int} : fitsInt128 x ↔
    -170141183460469231731687303715884105728 ≤ x ∧ x < 170141183460469231731687303715884105728 := by
  unfold fitsInt128
  rw [Bool.and_eq_true, decide_eq_true_eq, decide_eq_true_eq]

/-- A magnitude of 64 bits is a 64-bit integer in both directions. -/
theorem fitsInt64_of_natAbs_le {x : Int} (h : x.natAbs ≤ maxInt64) :
    fitsInt64 x ∧ fitsInt64 (-x) ∧ fitsInt64 x.natAbs := by
  simp only [fitsInt64_iff]
  unfold minInt64 maxInt64 at *
  omega

theorem abs64_of_natAbs_le {x : Int} (h : x.natAbs ≤ maxInt64) : abs64 x = x.natAbs := by
  have hmin : minInt64 = -maxInt64 - 1 := rfl
  exact abs64_eq_natAbs (by omega) (by omega)

/-- The product of two 64-bit values, neither of them the least one. -/
theorem natAbs_mul_le {a b : Int} (ha : a.natAbs ≤ maxInt64) (hb : b.natAbs ≤ maxInt64) :
    (a * b).natAbs ≤ 85070591730234615847396907784232501249 := by
  unfold maxInt64 at ha hb
  have ha' : a.natAbs ≤ 9223372036854775807 := by omega
  have hb' : b.natAbs ≤ 9223372036854775807 := by omega
  rw [Int.natAbs_mul]
  exact Nat.mul_le_mul ha' hb'

/-- A product of two 64-bit values with the multiplier of a symbol fits 128 bits exactly if the
symbol carries it. -/
theorem fitsInt128_mul_multiplier_iff {symbol : Symbol} {a b : Int} (ha : a.natAbs ≤ maxInt64)
    (hb : b.natAbs ≤ maxInt64) :
    fitsInt128 (a * b * symbol.multiplier) ↔ symbol.Carries (a * b) := by
  have hle := natAbs_mul_le ha hb
  generalize a * b = amount at hle ⊢
  rw [fitsInt128_iff]
  cases symbol with
  | equity ticker =>
      have hone : (Symbol.equity ticker).multiplier = 1 := rfl
      refine ⟨fun _ => .inl rfl, fun _ => ?_⟩
      rw [hone]
      omega
  | option contract =>
      have hhundred : (Symbol.option contract).multiplier = 100 := rfl
      have hcarries : (Symbol.option contract).Carries amount ↔ amount.natAbs ≤ contractRoom :=
        or_iff_right nofun
      rw [hcarries, hhundred, contractRoom]
      omega

/-- A symbol carries an amount in both directions or in none. -/
theorem Symbol.carries_congr {symbol : Symbol} {a b : Int} (h : a.natAbs = b.natAbs) :
    symbol.Carries a ↔ symbol.Carries b := by
  unfold Carries
  rw [h]

/-! ### Trades -/

namespace Holding

variable {h : Holding} {delta price : Int} {symbol : Symbol}

/-- The units that a trade closes at the distance of its price from the average. -/
def closedAmount (h : Holding) (delta price : Int) : Int :=
  h.closed delta * (price - h.averagePrice)

/-- The units that a trade closes are a 64-bit value. -/
theorem natAbs_closed_le (hquantity : h.quantity.natAbs ≤ maxInt64) :
    (h.closed delta).natAbs ≤ maxInt64 := by
  have hsign : h.quantity.sign.natAbs ≤ 1 := by
    rw [Int.natAbs_sign]
    split <;> decide
  have hmin : (min (h.quantity.natAbs : Int) delta.natAbs).natAbs ≤ h.quantity.natAbs := by omega
  have hle := Nat.mul_le_mul hmin hsign
  rw [closed, Int.natAbs_mul]
  omega

/-- A trade that does not enlarge the position leaves no more units than either has. -/
theorem natAbs_add_le_of_not_enlarges (henlarges : ¬ h.enlarges delta) :
    (h.quantity + delta).natAbs ≤ max h.quantity.natAbs delta.natAbs := by
  by_cases hnone : delta = 0
  · omega
  · have hopposite := opposite_of_not_enlarges hnone henlarges
    omega

/-- A trade that enlarges the position is in range if the quantity after it can be negated and is
not zero. -/
theorem tradeInRange_of_enlarges (hquantity : h.quantity.natAbs ≤ maxInt64)
    (hdelta : delta.natAbs ≤ maxInt64) (haverage : h.averagePrice.natAbs ≤ maxInt64)
    (hprice : price.natAbs ≤ maxInt64) (henlarges : h.enlarges delta) (multiplier : Int) :
    h.tradeInRange delta price multiplier ↔
      (h.quantity + delta).natAbs ≤ maxInt64 ∧ h.quantity + delta ≠ 0 := by
  have hbranch : h.quantity = 0 ∨ h.quantity.sign = delta.sign := by
    simpa [enlarges] using henlarges
  -- Both terms of the cost are products of 64-bit values.
  have hcost : fitsInt128 (h.quantity.natAbs * h.averagePrice + delta.natAbs * price) := by
    have hheld := natAbs_mul_le (a := h.quantity.natAbs) hquantity haverage
    have hnew := natAbs_mul_le (a := delta.natAbs) hdelta hprice
    generalize (h.quantity.natAbs : Int) * h.averagePrice = held at hheld ⊢
    generalize (delta.natAbs : Int) * price = new at hnew ⊢
    rw [fitsInt128_iff]
    omega
  unfold tradeInRange
  simp only
  rw [if_pos hbranch, hcost, (fitsInt64_of_natAbs_le hquantity).2.2,
    (fitsInt64_of_natAbs_le hdelta).2.2]
  simp only [Bool.and_true, Bool.and_eq_true, decide_eq_true_eq, fitsInt64_iff]
  unfold minInt64 maxInt64 at *
  omega

/-- A trade that does not enlarge the position is in range if the symbol carries what it closes. -/
theorem tradeInRange_of_not_enlarges (hquantity : h.quantity.natAbs ≤ maxInt64)
    (hdelta : delta.natAbs ≤ maxInt64) (hdistance : (price - h.averagePrice).natAbs ≤ maxInt64)
    (henlarges : ¬ h.enlarges delta) :
    h.tradeInRange delta price symbol.multiplier ↔
      symbol.Carries (h.closedAmount delta price) := by
  have hbranch : ¬ (h.quantity = 0 ∨ h.quantity.sign = delta.sign) := by
    simpa [enlarges] using henlarges
  have hle := natAbs_add_le_of_not_enlarges henlarges
  have hafter : fitsInt64 (h.quantity + delta) := (fitsInt64_of_natAbs_le (by omega)).1
  have hmin : (min (h.quantity.natAbs : Int) delta.natAbs).natAbs ≤ maxInt64 := by omega
  have hworth : closedWorth h.quantity h.averagePrice delta price symbol.multiplier =
      min (h.quantity.natAbs : Int) delta.natAbs * (price - h.averagePrice) *
        symbol.multiplier := by
    rw [closedWorth, abs64_of_natAbs_le hquantity, abs64_of_natAbs_le hdelta]
  have hprofit : closingProfit h.quantity h.averagePrice delta price symbol.multiplier =
      h.closed delta * (price - h.averagePrice) * symbol.multiplier := by
    rw [closingProfit, hworth, closed]
    ring
  -- The sign of the position does not change how much is carried.
  have hsame : symbol.Carries (min (h.quantity.natAbs : Int) delta.natAbs *
      (price - h.averagePrice)) ↔ symbol.Carries (h.closedAmount delta price) := by
    have hsign : h.quantity.sign.natAbs = 1 := by
      rw [Int.natAbs_sign, if_neg fun hzero => hbranch (.inl hzero)]
    refine Symbol.carries_congr ?_
    rw [closedAmount, closed, Int.natAbs_mul, Int.natAbs_mul, Int.natAbs_mul, hsign, Nat.mul_one]
  unfold tradeInRange
  simp only
  rw [if_neg hbranch, hafter, (fitsInt64_of_natAbs_le hquantity).2.2,
    (fitsInt64_of_natAbs_le hdelta).2.2, (fitsInt64_of_natAbs_le hdistance).1, hworth, hprofit]
  simp only [Bool.true_and, Bool.and_eq_true]
  rw [fitsInt128_mul_multiplier_iff hmin hdistance,
    fitsInt128_mul_multiplier_iff (natAbs_closed_le hquantity) hdistance, hsame]
  exact and_self_iff

/-- Quantity, trade and prices are 64-bit values, the first two not the least one and the prices
not negative. -/
structure Admits (h : Holding) (delta price : Int) : Prop where
  quantity_le : h.quantity.natAbs ≤ maxInt64
  average_nonneg : 0 ≤ h.averagePrice
  average_le : h.averagePrice ≤ maxInt64
  delta_le : delta.natAbs ≤ maxInt64
  price_nonneg : 0 ≤ price
  price_le : price ≤ maxInt64

namespace Admits

/-- A trade is in range exactly if the magnitude after it is, there is something to be traded or
held, and the symbol carries what is closed. -/
theorem tradeInRange_iff (ha : h.Admits delta price) :
    h.tradeInRange delta price symbol.multiplier ↔ (h.quantity + delta).natAbs ≤ maxInt64 ∧
      (h.quantity ≠ 0 ∨ delta ≠ 0) ∧
      (h.enlarges delta ∨ symbol.Carries (h.closedAmount delta price)) := by
  have hquantity := ha.quantity_le
  have haverage := ha.average_nonneg
  have haverage' := ha.average_le
  have hdelta := ha.delta_le
  have hprice := ha.price_nonneg
  have hprice' := ha.price_le
  by_cases henlarges : h.enlarges delta
  · -- Signs that agree do not cancel.
    have hzero : h.quantity + delta ≠ 0 ↔ h.quantity ≠ 0 ∨ delta ≠ 0 := by
      by_cases hnone : delta = 0
      · omega
      · have hsum := natAbs_add_of_enlarges hnone henlarges
        omega
    have hcarried : h.enlarges delta ∨ symbol.Carries (h.closedAmount delta price) :=
      .inl henlarges
    rw [tradeInRange_of_enlarges hquantity hdelta (by omega) (by omega) henlarges, hzero,
      and_iff_left hcarried]
  · have hle := natAbs_add_le_of_not_enlarges henlarges
    have hheld : h.quantity ≠ 0 := fun hzero => henlarges (by simp [enlarges, hzero])
    have hfits : ((h.quantity + delta).natAbs : Int) ≤ maxInt64 := by omega
    have hsome : h.quantity ≠ 0 ∨ delta ≠ 0 := .inl hheld
    rw [tradeInRange_of_not_enlarges hquantity hdelta (by omega) henlarges, or_iff_right henlarges,
      and_iff_right hsome, and_iff_right hfits]

/-- The profit of a trade is the exact product. -/
theorem trade_profit_eq (ha : h.Admits delta price) (multiplier : Int) :
    (h.trade delta price multiplier).2 = h.profit delta price multiplier := by
  unfold trade profit enlarges
  by_cases hbranch : h.quantity = 0 ∨ h.quantity.sign = delta.sign
  · simp [hbranch]
  · have hfalse : ¬ (decide (h.quantity = 0) || decide (h.quantity.sign = delta.sign)) = true := by
      simpa using hbranch
    rw [if_neg hbranch, if_neg hfalse]
    simp only [closingProfit, closedWorth]
    rw [abs64_of_natAbs_le ha.quantity_le, abs64_of_natAbs_le ha.delta_le]

end Admits

end Holding

/-! ### Fills, costs and values -/

section

variable {symbol : Symbol} {quantity price : Int}

/-- The cash of a fill is its worth, within 64 bits. -/
theorem Fill.cash_eq (hquantity : quantity.natAbs ≤ maxInt64) :
    (Fill.ofSigned symbol quantity price).cash =
      clamp64 (quantity.natAbs * price * symbol.multiplier) := by
  rw [Fill.ofSigned, Fill.cash, Fill.worth]
  simp only
  rw [abs64_of_natAbs_le hquantity]

/-- A fill is booked in range exactly if the symbol carries its amount and the trade is in range. -/
theorem Portfolio.applyInRange_iff {p : Portfolio} (hquantity : quantity.natAbs ≤ maxInt64)
    (hprice : price.natAbs ≤ maxInt64) :
    p.applyInRange (.ofSigned symbol quantity price) ↔ symbol.Carries (quantity * price) ∧
      (p.held symbol).tradeInRange quantity price symbol.multiplier := by
  have hmagnitude : (quantity.natAbs : Int).natAbs ≤ maxInt64 := hquantity
  have hworth : fitsInt128 (Fill.ofSigned symbol quantity price).worth ↔
      symbol.Carries (quantity * price) := by
    rw [Fill.ofSigned, Fill.worth]
    simp only
    rw [abs64_of_natAbs_le hquantity, fitsInt128_mul_multiplier_iff hmagnitude hprice]
    refine Symbol.carries_congr ?_
    rw [Int.natAbs_mul, Int.natAbs_natCast, ← Int.natAbs_mul]
  have hsign : (Fill.ofSigned symbol quantity price).signInRange := by
    unfold Fill.ofSigned Fill.signInRange
    simp only
    split
    · rfl
    · rw [abs64_of_natAbs_le hquantity]
      exact (fitsInt64_of_natAbs_le hmagnitude).2.1
  have hmin : minInt64 = -maxInt64 - 1 := rfl
  unfold applyInRange
  rw [hsign, Fill.signedQuantity_ofSigned (by omega) (by omega), Bool.and_true, Bool.and_eq_true,
    hworth]
  rfl

/-- The cost of a buy is in range exactly if the symbol carries its amount. -/
theorem OrderBook.submitInRange_iff {request : OrderRequest} {tracked : Universe}
    {security : Security} (hget : tracked.get? request.symbol = some security)
    (hbuy : 0 < request.quantity) (hquantity : request.quantity.natAbs ≤ maxInt64)
    (hprice : (security.price.getD 0).natAbs ≤ maxInt64) :
    submitInRange request tracked ↔
      request.symbol.Carries (request.quantity * security.price.getD 0) := by
  have hneg : decide (request.quantity ≤ 0) = false := decide_eq_false (by omega)
  unfold submitInRange
  rw [hget]
  simp only
  rw [hneg, Bool.false_or, worth]
  exact fitsInt128_mul_multiplier_iff hquantity hprice

/-- Under the strict policy a buy is accepted exactly if its worth is not more than the cash. -/
theorem OrderBook.submit_buy_iff {b : OrderBook} {request : OrderRequest} {tracked : Universe}
    {security : Security} {cash : Int} (now : Instant) (hpolicy : b.policy = .enforce)
    (hget : tracked.get? request.symbol = some security) (hbuy : 0 < request.quantity)
    (hprice : 0 ≤ security.price.getD 0) (hcash : cash < maxInt64) :
    (∃ order b', b.submit request tracked cash now = .ok (order, b')) ↔
      worth request security ≤ cash := by
  have hpositive : 0 ≤ request.symbol.multiplier := by
    unfold Symbol.multiplier
    split <;> decide
  have hworth : 0 ≤ worth request security :=
    Int.mul_nonneg (Int.mul_nonneg (Int.le_of_lt hbuy) hprice) hpositive
  have hcheck : b.check request tracked cash now =
      if estimatedCost request security ≤ cash then .ok b.warnings
      else .error (.insufficientFunds (estimatedCost request security) cash) := by
    unfold check
    rw [hget, hpolicy]
    simp only
    rw [if_neg (by omega), if_neg (by omega)]
  have hcost : estimatedCost request security ≤ cash ↔ worth request security ≤ cash := by
    unfold estimatedCost
    omega
  rw [submit, hcheck, ← hcost]
  by_cases henough : estimatedCost request security ≤ cash
  · rw [if_pos henough]
    exact iff_of_true ⟨_, _, rfl⟩ henough
  · rw [if_neg henough]
    refine iff_of_false ?_ henough
    rintro ⟨order, b', hsubmit⟩
    cases hsubmit

/-- Where values are added in range, each of them is. -/
theorem Portfolio.fits_of_valuesInRange {mark : Symbol → Option Int}
    {entries : List (Symbol × Holding)} {total : Int} (h : valuesInRange mark total entries)
    {e : Symbol × Holding} (he : e ∈ entries) :
    fitsInt128 (holdingValue e.1 e.2.quantity ((mark e.1).getD e.2.averagePrice)) := by
  induction entries generalizing total with
  | nil => cases he
  | cons first rest ih =>
      rw [valuesInRange, Bool.and_eq_true, Bool.and_eq_true] at h
      rcases List.mem_cons.1 he with rfl | hlater
      · exact h.1.1
      · exact ih h.2 hlater

/-- A portfolio with a holding whose value is not in range has no value. -/
theorem Portfolio.checkedEquity_of_not_fits {p : Portfolio} {mark : Symbol → Option Int}
    {h : Holding} (hget : p.holdings.get? symbol = some h)
    (hvalue : ¬ fitsInt128 (holdingValue symbol h.quantity ((mark symbol).getD h.averagePrice))) :
    p.checkedEquity mark = .error .overflow :=
  if_neg fun hin => hvalue (fits_of_valuesInRange hin (SortedMap.mem_entries.2 hget))

end

/-- A request to buy a quantity of a symbol whose record was last seen at a price. -/
structure OrderRequest.Buys (request : OrderRequest) (tracked : Universe) (security : Security)
    (symbol : Symbol) (quantity price : Int) : Prop where
  symbol_eq : request.symbol = symbol
  quantity_eq : request.quantity = quantity
  quantity_pos : 0 < quantity
  get?_eq : tracked.get? symbol = some security
  price_eq : security.price.getD 0 = price

/-- The products of money for a quantity of a symbol at a price. -/
structure Symbol.ProductsAt (symbol : Symbol) (quantity price : Int) : Prop where
  /-- The value of a holding, the product of the three, fits 128 bits exactly if the symbol carries
  the amount. -/
  value_fits_iff : fitsInt128 (Portfolio.holdingValue symbol quantity price) ↔
    symbol.Carries (quantity * price)
  /-- A buy is estimated to cost the product, within 64 bits. -/
  cost_eq : ∀ {request tracked security}, request.Buys tracked security symbol quantity price →
    OrderBook.estimatedCost request security =
      max 0 (min (quantity * price * symbol.multiplier) maxInt64)
  /-- A buy stops the program unless the symbol carries the amount. -/
  submit_eq : ∀ {request tracked security}, request.Buys tracked security symbol quantity price →
    ∀ (b : OrderBook) cash now, b.checkedSubmit request tracked cash now =
      if symbol.Carries (quantity * price) then .ok (b.submit request tracked cash now)
      else .error .overflow
  /-- The strict policy accepts the buys that cost no more than the cash. -/
  accepted_iff : ∀ {request tracked security},
    request.Buys tracked security symbol quantity price →
    ∀ (b : OrderBook) cash now, b.policy = .enforce → cash < maxInt64 →
      ((∃ order b', b.checkedSubmit request tracked cash now = .ok (.ok (order, b'))) ↔
        symbol.Carries (quantity * price) ∧ quantity * price * symbol.multiplier ≤ cash)
  /-- The cash of a fill is the product, within 64 bits. -/
  cash_eq : (Fill.ofSigned symbol quantity price).cash =
    clamp64 (quantity.natAbs * price * symbol.multiplier)
  /-- A fill stops the program unless the symbol carries the amount and the trade is in range. -/
  apply_eq : ∀ p : Portfolio, p.checkedApply (.ofSigned symbol quantity price) =
    if symbol.Carries (quantity * price) ∧
      (p.held symbol).tradeInRange quantity price symbol.multiplier
    then .ok (p.apply (.ofSigned symbol quantity price)) else .error .overflow
  /-- A holding that is marked at an amount not carried stops the program. -/
  equity_eq : ∀ (p : Portfolio) mark h, p.holdings.get? symbol = some h → h.quantity = quantity →
    (mark symbol).getD h.averagePrice = price → ¬ symbol.Carries (quantity * price) →
    p.checkedEquity mark = .error .overflow

/-- The products for a quantity that is not the least and a price that is not negative. -/
theorem Symbol.productsAt (symbol : Symbol) {quantity price : Int}
    (hquantity : quantity.natAbs ≤ maxInt64) (hprice : 0 ≤ price) (hprice' : price ≤ maxInt64) :
    symbol.ProductsAt quantity price := by
  have hmark : price.natAbs ≤ maxInt64 := by omega
  have hfits : fitsInt128 (Portfolio.holdingValue symbol quantity price) ↔
      symbol.Carries (quantity * price) := fitsInt128_mul_multiplier_iff hquantity hmark
  have hsubmit : ∀ {request tracked security},
      request.Buys tracked security symbol quantity price →
      ∀ (b : OrderBook) cash now, b.checkedSubmit request tracked cash now =
        if symbol.Carries (quantity * price) then .ok (b.submit request tracked cash now)
        else .error .overflow := by
    rintro request tracked security ⟨rfl, rfl, hbuy, hget, rfl⟩ b cash now
    exact Overflow.check_eq_ite (OrderBook.submitInRange_iff hget hbuy hquantity hmark) _
  refine ⟨hfits, ?_, hsubmit, ?_, Fill.cash_eq hquantity, fun p => ?_, ?_⟩
  · rintro request tracked security ⟨rfl, rfl, -, -, rfl⟩
    rfl
  · intro request tracked security hbuys b cash now hpolicy hcash
    rw [hsubmit hbuys]
    obtain ⟨rfl, rfl, hbuy, hget, rfl⟩ := hbuys
    have haccepted := OrderBook.submit_buy_iff now hpolicy hget hbuy hprice hcash
    split
    · rename_i hcarries
      rw [and_iff_right hcarries, ← OrderBook.worth, ← haccepted]
      simp only [Except.ok.injEq]
    · rename_i hover
      exact iff_of_false (by simp) fun h => hover h.1
  · exact Overflow.check_eq_ite (Portfolio.applyInRange_iff hquantity hmark) _
  · rintro p mark h hget rfl rfl hover
    exact Portfolio.checkedEquity_of_not_fits hget fun hin => hover (hfits.1 hin)

/-- The products of money of a symbol, for quantities, prices and average prices of 64 bits, none
of them negative but the quantities, and no quantity the least one.

The product of a quantity, a price and the multiplier fits 128 bits exactly if the symbol carries
the amount: always for an equity, and for a contract up to `contractRoom`. There the estimated cost
of a buy and the cash of a fill are the product kept within 64 bits, and under the strict policy
with less than the greatest cash a buy is accepted exactly if it costs no more than the cash.
Elsewhere the program stops at the product: nothing is accepted, booked or valued.

The profit of a trade is the exact product. The trade is in range exactly if the magnitude after it
is, something is held or traded, and the trade closes nothing or the symbol carries what it
closes. -/
theorem products_exact_iff (symbol : Symbol) :
    (∀ quantity price : Int, quantity.natAbs ≤ maxInt64 → 0 ≤ price → price ≤ maxInt64 →
      symbol.ProductsAt quantity price) ∧
    ∀ (h : Holding) (delta price : Int), h.Admits delta price →
      (h.trade delta price symbol.multiplier).2 = h.profit delta price symbol.multiplier ∧
      (h.tradeInRange delta price symbol.multiplier ↔ (h.quantity + delta).natAbs ≤ maxInt64 ∧
        (h.quantity ≠ 0 ∨ delta ≠ 0) ∧
        (h.enlarges delta ∨ symbol.Carries (h.closedAmount delta price))) :=
  ⟨fun _ _ hquantity hprice hprice' => symbol.productsAt hquantity hprice hprice',
    fun _ _ _ ha => ⟨ha.trade_profit_eq symbol.multiplier, ha.tradeInRange_iff⟩⟩

/-- A call on an equity. -/
def someCall : Symbol := .option ⟨"AAPL", .civil 2014 6 21, 650000000, .call, .american⟩

/-- The record of a symbol last seen at a price. -/
def Security.seenAt (price : Int) : Security := { fresh with price := some price }

/-- A universe of one symbol, last seen at a price. -/
def Universe.seenAt (symbol : Symbol) (price : Int) : Universe :=
  { start .withContract .everyStep with securities := .ofList [(symbol, .seenAt price)] }

/-- A buy of the greatest quantity of a call at the greatest price without any cash stops the
program where an equity's is refused. So do its fill, its mark and its sale after a rise to the
greatest price. -/
theorem greatest_call_overflows :
    let request (symbol : Symbol) : OrderRequest := ⟨symbol, maxInt64, .market, none⟩
    let now : Instant := .startOf (.civil 2013 10 7) .daily
    let submit (symbol : Symbol) :=
      (OrderBook.start .exchangeWeekdays .enforce).checkedSubmit (request symbol)
        (.seenAt symbol maxInt64) 0 now
    let held : Holding := ⟨maxInt64, 0⟩
    submit someCall = .error .overflow ∧
    (¬ ∃ order b', submit (.equity "AAPL") = .ok (.ok (order, b'))) ∧
    (Portfolio.ofCash 0).checkedApply (.ofSigned someCall maxInt64 maxInt64) = .error .overflow ∧
    ({ Portfolio.ofCash 0 with holdings := .ofList [(someCall, held)] } : Portfolio).checkedEquity
      (fun _ => some maxInt64) = .error .overflow ∧
    ¬ held.tradeInRange (-maxInt64) maxInt64 someCall.multiplier := by
  intro request now submit held
  have hcall := (products_exact_iff someCall).1 maxInt64 maxInt64 (by decide) (by decide)
    (Int.le_refl _)
  have hequity := (products_exact_iff (.equity "AAPL")).1 maxInt64 maxInt64 (by decide)
    (by decide) (Int.le_refl _)
  have hover : ¬ someCall.Carries (maxInt64 * maxInt64) := by decide
  have hbuys : ∀ symbol, (Universe.seenAt symbol maxInt64).get? symbol = some (.seenAt maxInt64) →
      (request symbol).Buys (.seenAt symbol maxInt64) (.seenAt maxInt64) symbol maxInt64 maxInt64 :=
    fun _ hget => ⟨rfl, rfl, by decide, hget, rfl⟩
  refine ⟨?_, ?_, ?_, ?_, ?_⟩
  · exact (hcall.submit_eq (hbuys someCall rfl) _ _ _).trans (if_neg hover)
  · rw [hequity.accepted_iff (hbuys (.equity "AAPL") rfl) _ _ _ rfl (by decide)]
    decide
  · exact (hcall.apply_eq _).trans (if_neg fun h => hover h.1)
  · exact hcall.equity_eq _ _ held rfl rfl rfl hover
  · have htrade := (products_exact_iff someCall).2 held (-maxInt64) maxInt64
      ⟨by decide, by decide, by decide, by decide, by decide, Int.le_refl _⟩
    rw [htrade.2]
    decide

end MarketReplay
