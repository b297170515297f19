import MarketReplay.SortedMap
import MarketReplay.Symbol
import MarketReplay.Width

/-!
# Cash and holdings at average cost

A portfolio is cash, realized profit and the holdings that are not flat. A fill moves cash by
quantity, price and multiplier. Adding to a position weighs its average price anew; reducing it
realizes profit against the average; crossing through flat opens the rest at the fill's price.
`applyInRange` and `equityInRange` tell whether the sums and products behind a fill and behind the
value of the portfolio fit their widths.
-/

namespace MarketReplay

/-- The side of a fill. -/
inductive Side where
  | buy | sell
  deriving DecidableEq, Repr

/-- The side of a signed quantity. -/
def Side.ofQuantity (quantity : Int) : Side := if quantity < 0 then .sell else .buy

/-- An executed fill. -/
structure Fill where
  symbol : Symbol
  side : Side
  quantity : Int
  price : Int
  multiplier : Int
  deriving DecidableEq

namespace Fill

/-- The fill of a signed quantity of a symbol, with the symbol's own multiplier. -/
def ofSigned (symbol : Symbol) (quantity price : Int) : Fill :=
  ⟨symbol, .ofQuantity quantity, abs64 quantity, price, symbol.multiplier⟩

/-- The quantity with the sign of the side. -/
def signedQuantity (f : Fill) : Int :=
  match f.side with
  | .buy => f.quantity
  | .sell => wrap64 (-f.quantity)

/-- What the fill is worth. -/
def worth (f : Fill) : Int := f.quantity * f.price * f.multiplier

/-- The cash that the fill moves. -/
def cash (f : Fill) : Int := clamp64 f.worth

/-- Whether the quantity can be given the sign of the side. -/
def signInRange (f : Fill) : Bool :=
  match f.side with
  | .buy => true
  | .sell => fitsInt64 (-f.quantity)

end Fill

/-- A position in one symbol; the average price is that of the open quantity and 0 when flat. -/
structure Holding where
  quantity : Int
  averagePrice : Int
  deriving DecidableEq

namespace Holding

/-- No position. -/
def flat : Holding := ⟨0, 0⟩

instance : Inhabited Holding := ⟨flat⟩

/-- Whether there is no open quantity. -/
def isFlat (h : Holding) : Bool := h.quantity == 0

/-- The price at which a position of `before` units at `average` and `delta` more at `price` is
carried: their weighted mean, cut toward zero. -/
def weightedAverage (before average delta price after : Int) : Int :=
  wrap64 ((abs64 before * average + abs64 delta * price).tdiv (abs64 after))

/-- The profit of closing units of a long position, and the loss of closing those of a short one. -/
def closedWorth (before average delta price multiplier : Int) : Int :=
  min (abs64 before) (abs64 delta) * (price - average) * multiplier

/-- The profit of closing units of a position. -/
def closingProfit (before average delta price multiplier : Int) : Int :=
  closedWorth before average delta price multiplier * before.sign

/-- The holding after a trade of `delta` units, and the profit realized by it. -/
def trade (h : Holding) (delta price multiplier : Int) : Holding × Int :=
  let after := wrap64 (h.quantity + delta)
  if h.quantity = 0 ∨ h.quantity.sign = delta.sign then
    (⟨after, weightedAverage h.quantity h.averagePrice delta price after⟩, 0)
  else
    let average :=
      if after = 0 then 0
      else if after.sign ≠ h.quantity.sign then price
      else h.averagePrice
    (⟨after, average⟩, closingProfit h.quantity h.averagePrice delta price multiplier)

/-- Whether the sums and products of a trade are in range, and its mean is one of some units. -/
def tradeInRange (h : Holding) (delta price multiplier : Int) : Bool :=
  let after := h.quantity + delta
  fitsInt64 after && fitsInt64 h.quantity.natAbs && fitsInt64 delta.natAbs &&
    if h.quantity = 0 ∨ h.quantity.sign = delta.sign then
      after ≠ 0 && fitsInt64 after.natAbs &&
        fitsInt128 (h.quantity.natAbs * h.averagePrice + delta.natAbs * price)
    else
      fitsInt64 (price - h.averagePrice) &&
        fitsInt128 (closedWorth h.quantity h.averagePrice delta price multiplier) &&
        fitsInt128 (closingProfit h.quantity h.averagePrice delta price multiplier)

end Holding

/-- Cash and holdings. -/
structure Portfolio where
  initialCash : Int
  cash : Int
  realized : Int
  holdings : SortedMap Symbol Holding
  deriving DecidableEq

namespace Portfolio

/-- A portfolio of cash alone. -/
def ofCash (cash : Int) : Portfolio := ⟨cash, cash, 0, .empty⟩

instance : Inhabited Portfolio := ⟨ofCash 0⟩

/-- The open quantity of a symbol. -/
def quantity (p : Portfolio) (symbol : Symbol) : Int :=
  ((p.holdings.get? symbol).map Holding.quantity).getD 0

/-- The portfolio after a fill. A holding that becomes flat is dropped. -/
def apply (p : Portfolio) (f : Fill) : Portfolio :=
  let cash := match f.side with
    | .buy => clamp64 (p.cash - f.cash)
    | .sell => clamp64 (p.cash + f.cash)
  let (holding, profit) :=
    ((p.holdings.get? f.symbol).getD .flat).trade f.signedQuantity f.price f.multiplier
  { p with
    cash
    realized := clamp64 (p.realized + clamp64 profit)
    holdings :=
      if holding.isFlat then p.holdings.erase f.symbol else p.holdings.insert f.symbol holding }

/-- Whether the sums and products behind a fill are in range. -/
def applyInRange (p : Portfolio) (f : Fill) : Bool :=
  fitsInt128 f.worth && f.signInRange &&
    ((p.holdings.get? f.symbol).getD .flat).tradeInRange f.signedQuantity f.price f.multiplier

/-- The portfolio after a fill, or the overflow at which the program stops. -/
def checkedApply (p : Portfolio) (f : Fill) : Except Overflow Portfolio :=
  Overflow.check (p.applyInRange f) (p.apply f)

/-- The value of a holding at a price. -/
def holdingValue (symbol : Symbol) (quantity price : Int) : Int :=
  quantity * price * symbol.multiplier

/-- Cash and the marked value of every holding; a holding without a mark counts at its average
price. -/
def equity (p : Portfolio) (mark : Symbol → Option Int) : Int :=
  clamp64 (p.holdings.entries.foldl (fun total (symbol, h) =>
    total + holdingValue symbol h.quantity ((mark symbol).getD h.averagePrice)) p.cash)

/-- Whether the values of holdings are added to a total in range. -/
def valuesInRange (mark : Symbol → Option Int) : (total : Int) → List (Symbol × Holding) → Bool
  | _, [] => true
  | total, (symbol, h) :: rest =>
    let value := holdingValue symbol h.quantity ((mark symbol).getD h.averagePrice)
    fitsInt128 value && fitsInt128 (total + value) && valuesInRange mark (total + value) rest

/-- Whether the sums and products behind the value of the portfolio are in range. -/
def equityInRange (p : Portfolio) (mark : Symbol → Option Int) : Bool :=
  valuesInRange mark p.cash p.holdings.entries

/-- The value of the portfolio, or the overflow at which the program stops. -/
def checkedEquity (p : Portfolio) (mark : Symbol → Option Int) : Except Overflow Int :=
  Overflow.check (p.equityInRange mark) (p.equity mark)

end Portfolio

end MarketReplay
