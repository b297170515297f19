/-!
# The shortest decimal of a binary fraction

A finite positive binary64 value is `m * 2 ^ q`. Every real of an interval around it is read back
as that value. `shortest` finds the decimal of fewest digits in the interval, and of those the one
nearest to the value. All arithmetic is on natural numbers.
-/

namespace MarketReplay.Shortest

/-- A nonnegative fraction. -/
structure Fraction where
  num : Nat
  den : Nat

/-- Twice powers as a fraction: `m * 2 ^ q`. -/
def Fraction.ofBinary (m : Nat) (q : Int) : Fraction :=
  if 0 ≤ q then ⟨m * Nat.pow 2 q.toNat, 1⟩ else ⟨m, Nat.pow 2 (-q).toNat⟩

/-- `n * 10 ^ e`. -/
def Fraction.ofDecimal (n : Nat) (e : Int) : Fraction :=
  if 0 ≤ e then ⟨n * Nat.pow 10 e.toNat, 1⟩ else ⟨n, Nat.pow 10 (-e).toNat⟩

/-- Whether a fraction is at most another. -/
def Fraction.le (a b : Fraction) : Bool := a.num * b.den ≤ b.num * a.den

/-- Whether a fraction is less than another. -/
def Fraction.lt (a b : Fraction) : Bool := a.num * b.den < b.num * a.den

/-- The whole multiples of `10 ^ e` in a fraction. -/
def Fraction.floorBy (a : Fraction) (e : Int) : Nat :=
  if 0 ≤ e then a.num / (a.den * Nat.pow 10 e.toNat)
  else a.num * Nat.pow 10 (-e).toNat / a.den

/-- The distance of two fractions. -/
def Fraction.distance (a b : Fraction) : Fraction :=
  let x := a.num * b.den
  let y := b.num * a.den
  ⟨(x - y) + (y - x), a.den * b.den⟩

/-- The greatest power of ten that is at most a positive fraction, from its binary length. -/
def Fraction.magnitude (a : Fraction) : Int :=
  let guess := ((Nat.log2 a.num : Int) - Nat.log2 a.den) * 30103 / 100000
  if (Fraction.ofDecimal 1 (guess + 1)).le a then guess + 1
  else if (Fraction.ofDecimal 1 guess).le a then guess
  else guess - 1

/-- The reals that are read back as one value: between two bounds, the bounds themselves too if
the value's significand is even. -/
structure Interval where
  value : Fraction
  low : Fraction
  high : Fraction
  closed : Bool

/-- Whether a fraction lies in an interval. -/
def Interval.contains (i : Interval) (a : Fraction) : Bool :=
  if i.closed then i.low.le a && a.le i.high else i.low.lt a && a.lt i.high

/-- The interval of `m * 2 ^ q`; below a power of two the next value is half as far. -/
def Interval.ofBinary (m : Nat) (q : Int) (atPower : Bool) : Interval where
  value := .ofBinary (4 * m) (q - 2)
  low := .ofBinary (4 * m - if atPower then 1 else 2) (q - 2)
  high := .ofBinary (4 * m + 2) (q - 2)
  closed := m % 2 == 0

/-- The decimal on the grid of `10 ^ e` that lies in the interval and is nearest to its value. -/
def nearestOnGrid (i : Interval) (e : Int) : Option Nat :=
  let below := i.value.floorBy e
  let above := below + 1
  let belowFits := below != 0 && i.contains (.ofDecimal below e)
  let aboveFits := i.contains (.ofDecimal above e)
  if belowFits && aboveFits then
    let toBelow := i.value.distance (.ofDecimal below e)
    let toAbove := i.value.distance (.ofDecimal above e)
    if toBelow.lt toAbove then some below
    else if toAbove.lt toBelow then some above
    else some (if below % 2 = 0 then below else above)
  else if belowFits then some below
  else if aboveFits then some above
  else none

/-- The first grid, from `digits` digits on, with a decimal in the interval. -/
def search (i : Interval) (magnitude : Int) : (tries digits : Nat) → Nat × Int
  | 0, digits => (i.value.floorBy (magnitude + 1 - digits), magnitude + 1 - digits)
  | tries + 1, digits =>
    let e := magnitude + 1 - digits
    match nearestOnGrid i e with
    | some n => (n, e)
    | none => search i magnitude tries (digits + 1)

/-- A decimal without zeros at its end. -/
def dropZeros : (fuel : Nat) → Nat × Int → Nat × Int
  | 0, d => d
  | fuel + 1, (n, e) => if n != 0 && n % 10 = 0 then dropZeros fuel (n / 10, e + 1) else (n, e)

/-- The shortest decimal `n * 10 ^ e` that is read back as `m * 2 ^ q`. -/
def shortest (m : Nat) (q : Int) (atPower : Bool) : Nat × Int :=
  let i := Interval.ofBinary m q atPower
  dropZeros 20 (search i i.value.magnitude 17 1)

end MarketReplay.Shortest
