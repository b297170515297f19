import MarketReplay.Instant
import MarketReplay.Symbol
import MarketReplay.Width

/-!
# Historical prints

A point is one print of a symbol: its time, price, the open of its bar if it stands for one, and a
cumulative adjustment factor in millionths.
-/

namespace MarketReplay

/-- One print. -/
structure PricePoint where
  symbol : Symbol
  time : DateTime
  price : Int
  openPrice : Option Int
  factor : Int
  deriving DecidableEq

namespace PricePoint

/-- The factor that adjusts nothing. -/
def unitFactor : Int := 1000000

/-- An amount under a normalization: an adjusted amount is scaled by the factor, cut toward zero
and kept within 64 bits. -/
def normalize (p : PricePoint) (mode : Normalization) (amount : Int) : Int :=
  match mode with
  | .raw => amount
  | .adjusted => clamp64 ((amount * p.factor).tdiv unitFactor)

/-- The price under a normalization. -/
def priceIn (p : PricePoint) (mode : Normalization) : Int := p.normalize mode p.price

/-- The open under a normalization; a print without an open opens at its price. -/
def openIn (p : PricePoint) (mode : Normalization) : Int :=
  p.normalize mode (p.openPrice.getD p.price)

end PricePoint

end MarketReplay
