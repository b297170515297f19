import MarketReplay.Number.Shortest
import MarketReplay.Text.Digits

/-!
# Binary fractions of 64 bits

A `Binary64` is kept as its bits: a sign, eleven bits of exponent and 52 of significand. Its text
is its shortest decimal, positional for exponents from -5 to 15 and with an exponent otherwise; a
decimal text is read to the nearest value.
-/

namespace MarketReplay

/-- A binary fraction, as its bits. -/
structure Binary64 where
  bits : UInt64
  deriving DecidableEq, Repr

namespace Binary64

/-- The sign bit. -/
def isNegative (x : Binary64) : Bool := x.bits.toNat / Nat.pow 2 63 = 1

/-- The eleven bits of the exponent. -/
def exponentBits (x : Binary64) : Nat := x.bits.toNat / Nat.pow 2 52 % Nat.pow 2 11

/-- The low 52 bits of the significand. -/
def fractionBits (x : Binary64) : Nat := x.bits.toNat % Nat.pow 2 52

/-- Neither infinite nor without a value. -/
def isFinite (x : Binary64) : Bool := x.exponentBits != 2047

/-- No number. -/
def isNaN (x : Binary64) : Bool := x.exponentBits == 2047 && x.fractionBits != 0

/-- Positive or negative zero. -/
def isZero (x : Binary64) : Bool := x.exponentBits == 0 && x.fractionBits == 0

/-- Whether two values compare as equal; zeros do whatever their sign, and so do non-numbers. -/
def same (x y : Binary64) : Bool :=
  (x.isNaN && y.isNaN) || (!x.isNaN && !y.isNaN && (x.bits == y.bits || (x.isZero && y.isZero)))

/-- Positive infinity. -/
def infinity : Binary64 := ⟨0x7ff0000000000000⟩

/-- Negative infinity. -/
def negInfinity : Binary64 := ⟨0xfff0000000000000⟩

/-- No number. -/
def nan : Binary64 := ⟨0x7ff8000000000000⟩

/-- The shortest decimal of the magnitude of a finite value that is not zero. -/
def shortestDecimal (x : Binary64) : Nat × Int :=
  if x.exponentBits = 0 then Shortest.shortest x.fractionBits (-1074) false
  else
    Shortest.shortest (Nat.pow 2 52 + x.fractionBits) (x.exponentBits - 1075)
      (x.fractionBits = 0 && x.exponentBits > 1)

/-- A decimal in positional writing or with an exponent. -/
def decimalText (n : Nat) (e : Int) : String :=
  let digits := toString n
  let point : Int := digits.length + e
  if 0 ≤ e && point ≤ 16 then
    digits ++ String.ofList (List.replicate e.toNat '0') ++ ".0"
  else if 0 < point && point ≤ 16 then
    String.ofList (digits.toList.take point.toNat) ++ "." ++
      String.ofList (digits.toList.drop point.toNat)
  else if -5 < point && point ≤ 0 then
    "0." ++ String.ofList (List.replicate (-point).toNat '0') ++ digits
  else
    let lead := String.ofList (digits.toList.take 1)
    let rest := digits.toList.drop 1
    let mantissa := if rest.isEmpty then lead else lead ++ "." ++ String.ofList rest
    let power := point - 1
    mantissa ++ "e" ++ (if power < 0 then "-" else "+") ++ toString power.natAbs

/-- The text of a finite value. -/
def text (x : Binary64) : String :=
  let sign := if x.isNegative then "-" else ""
  if x.isZero then sign ++ "0.0"
  else
    let (n, e) := x.shortestDecimal
    sign ++ decimalText n e

/-- The value nearest to `n * 10 ^ e`; infinite beyond the range. -/
def ofDecimal (negative : Bool) (n : Nat) (e : Int) : Binary64 :=
  let place : Int := (toString n).length + e
  let magnitude : Float :=
    if n = 0 then 0.0
    else if place > 310 then Float.ofBits 0x7ff0000000000000
    else if place < -330 then 0.0
    else if 0 ≤ e then Float.ofScientific n false e.toNat
    else Float.ofScientific n true (-e).toNat
  ⟨if negative then magnitude.toBits ||| 0x8000000000000000 else magnitude.toBits⟩

/-- The exponent of a decimal text, after its letter. -/
def parseExponent? (cs : List Char) : Option Int :=
  let (negative, digits) := match cs with
    | '-' :: rest => (true, rest)
    | '+' :: rest => (false, rest)
    | rest => (false, rest)
  if digits.isEmpty || !digits.all Char.isDigit then none
  else
    let n : Int := Text.digitsValue digits
    some (if negative then -n else n)

/-- The value of an unsigned decimal text: digits with at most one point, at least one digit, and
perhaps an exponent. -/
def parseUnsigned? (negative : Bool) (cs : List Char) : Option Binary64 :=
  let isMark := fun c => c == 'e' || c == 'E'
  let mantissa := cs.takeWhile fun c => !isMark c
  let tail := cs.dropWhile fun c => !isMark c
  let exponent? := match tail with
    | [] => some 0
    | _ :: rest => parseExponent? rest
  let whole := mantissa.takeWhile (· != '.')
  let fraction := (mantissa.dropWhile (· != '.')).drop 1
  if whole.isEmpty && fraction.isEmpty then none
  else if !(whole.all Char.isDigit && fraction.all Char.isDigit) then none
  else exponent?.map fun e =>
    ofDecimal negative (Text.digitsValue (whole ++ fraction)) (e - fraction.length)

/-- The value of a decimal text with at most one sign. -/
def parse? (cs : List Char) : Option Binary64 :=
  match cs with
  | '-' :: rest => parseUnsigned? true rest
  | '+' :: rest => parseUnsigned? false rest
  | rest => parseUnsigned? false rest

end Binary64

end MarketReplay
