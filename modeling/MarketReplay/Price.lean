import MarketReplay.Text.Blank
import MarketReplay.Text.Digits
import MarketReplay.Text.Padded
import MarketReplay.Width

/-!
# Decimal prices

Prices and cash are whole micro-units. `Price.parse?` reads a decimal text, cutting places after
the sixth; `Price.format` writes the shortest decimal text of an amount.
-/

namespace MarketReplay.Price

/-- Micro-units in one unit. -/
def scale : Nat := 1000000

/-- The micro-units of an unsigned decimal: digits with at most one point among them. -/
def parseUnsigned? (body : List Char) : Option Nat :=
  let whole := body.takeWhile (· != '.')
  let fraction := (body.dropWhile (· != '.')).drop 1
  if whole.isEmpty && fraction.isEmpty then none
  else if !(whole.all Char.isDigit && fraction.all Char.isDigit) then none
  else some (Text.digitsValue whole * scale + Text.fractionValue 6 fraction)

/-- Whether a text begins with a minus, and the text after its sign. -/
def splitSign : List Char → Bool × List Char
  | '-' :: rest => (true, rest)
  | '+' :: rest => (false, rest)
  | body => (false, body)

/-- The micro-units of a decimal text, if their magnitude is a 64-bit integer. -/
def parseChars? (cs : List Char) : Option Int :=
  let (negative, body) := splitSign (Text.trim cs)
  match parseUnsigned? body with
  | none => none
  | some magnitude =>
    if (magnitude : Int) ≤ maxInt64 then some (if negative then -magnitude else magnitude) else none

/-- The micro-units of a decimal text. -/
def parse? (s : String) : Option Int := parseChars? s.toList

/-- The digits without the zeros at their end. -/
def dropTrailingZeros (digits : List Char) : List Char :=
  (digits.reverse.dropWhile (· == '0')).reverse

/-- The shortest decimal text of an amount of micro-units. -/
def format (micros : Int) : String :=
  let sign := if micros < 0 then "-" else ""
  let whole := micros.natAbs / scale
  let fraction := micros.natAbs % scale
  if fraction = 0 then sign ++ toString whole
  else
    sign ++ toString whole ++ "." ++
      String.ofList (dropTrailingZeros (Text.zeroPadded 6 fraction).toList)

end MarketReplay.Price
