/-!
# Padded numbers

Decimal numbers filled with zeros to a least width, the sign counted in it.
-/

namespace MarketReplay.Text

/-- The text with `fill` before it up to `width` characters. -/
def padLeft (width : Nat) (fill : Char) (s : String) : String :=
  String.ofList (List.replicate (width - s.length) fill) ++ s

/-- The text with `fill` after it up to `width` characters. -/
def padRight (width : Nat) (fill : Char) (s : String) : String :=
  s ++ String.ofList (List.replicate (width - s.length) fill)

/-- A natural number of at least `width` digits. -/
def zeroPadded (width : Nat) (n : Nat) : String := padLeft width '0' (toString n)

/-- An integer of at least `width` characters, zeros between the sign and the digits. -/
def zeroPaddedInt (width : Nat) (n : Int) : String :=
  if n < 0 then "-" ++ zeroPadded (width - 1) n.natAbs else zeroPadded width n.natAbs

end MarketReplay.Text
