/-!
# Arithmetic of bounded width

Amounts are integers of 64 bits and products of amounts integers of 128. `wrap64` keeps the low bits
of a value that does not fit 64, `clamp64` takes the nearest bound; both leave a value alone that
fits (`wrap64_eq_self`, `clamp64_eq_self`). A sum or product that does not fit its width is an
`Overflow`, at which a program stops: a check beside a function tells whether all results formed on
the way are in range, and only then its value counts.
-/

namespace MarketReplay

/-- The least 64-bit integer. -/
def minInt64 : Int := -9223372036854775808

/-- The greatest 64-bit integer. -/
def maxInt64 : Int := 9223372036854775807

/-- Whether a value is a 64-bit integer. -/
def fitsInt64 (x : Int) : Bool := minInt64 ≤ x && x ≤ maxInt64

/-- Whether a value is a 128-bit integer. -/
def fitsInt128 (x : Int) : Bool :=
  -170141183460469231731687303715884105728 ≤ x && x < 170141183460469231731687303715884105728

/-- The 64-bit integer with the same low bits. -/
def wrap64 (x : Int) : Int := x.bmod 18446744073709551616

/-- The 64-bit integer nearest to a value. -/
def clamp64 (x : Int) : Int := max minInt64 (min x maxInt64)

/-- The magnitude of a 64-bit integer, the least one kept as it is. -/
def abs64 (x : Int) : Int := wrap64 x.natAbs

/-- A 64-bit value is its own `wrap64`. -/
theorem wrap64_eq_self {x : Int} (hlo : minInt64 ≤ x) (hhi : x ≤ maxInt64) : wrap64 x = x := by
  unfold wrap64 minInt64 maxInt64 at *
  rw [Int.bmod_def]
  omega

/-- A 64-bit value is its own nearest. -/
theorem clamp64_eq_self {x : Int} (hlo : minInt64 ≤ x) (hhi : x ≤ maxInt64) : clamp64 x = x := by
  unfold clamp64
  omega

/-- A result that does not fit its width. -/
inductive Overflow where
  | overflow
  deriving DecidableEq, Repr

/-- A result, if all that is formed on the way to it is in range. -/
def Overflow.check {α : Type} (inRange : Bool) (result : α) : Except Overflow α :=
  if inRange then .ok result else .error .overflow

/-- A result that is in range under a condition. -/
theorem Overflow.check_eq_ite {α : Type} {inRange : Bool} {P : Prop} [Decidable P] (h : inRange ↔ P)
    (result : α) : check inRange result = if P then .ok result else .error .overflow := by
  unfold check
  by_cases hP : P
  · rw [if_pos hP, if_pos (h.2 hP)]
  · rw [if_neg hP, if_neg fun hin => hP (h.1 hin)]

end MarketReplay
