/-!
# Digits

The number that a run of digits stands for, digits read as a fraction of fixed places, and numbers
written in a base up to 16.
-/

namespace MarketReplay.Text

/-- The number that decimal digits stand for. -/
def digitsValue (digits : List Char) : Nat :=
  digits.foldl (fun n c => 10 * n + (c.toNat - '0'.toNat)) 0

/-- The digits after a point counted in units of the last of `places` places: later digits are
cut, missing ones are zero. -/
def fractionValue (places : Nat) (digits : List Char) : Nat :=
  digitsValue (digits.take places ++ List.replicate (places - digits.length) '0')

/-- The value of a hexadecimal digit. -/
def digitValue? (c : Char) : Option Nat :=
  if c.isDigit then some (c.toNat - '0'.toNat)
  else if 'a' ≤ c && c ≤ 'f' then some (c.toNat - 'a'.toNat + 10)
  else if 'A' ≤ c && c ≤ 'F' then some (c.toNat - 'A'.toNat + 10)
  else none

/-- The number that at least one digit of a base stands for. -/
def baseNumber? (base : Nat) (cs : List Char) : Option Nat :=
  if cs.isEmpty then none
  else
    cs.foldl (fun acc c => match acc, digitValue? c with
      | some n, some d => if d < base then some (base * n + d) else none
      | _, _ => none) (some 0)

/-- The bytes of hexadecimal digits taken two at a time; a digit left over is passed over. -/
def hexBytes? : List Char → Option (List UInt8)
  | a :: b :: rest =>
    match baseNumber? 16 [a, b], hexBytes? rest with
    | some n, some bytes => some (UInt8.ofNat n :: bytes)
    | _, _ => none
  | _ => some []

end MarketReplay.Text
