import Mathlib.Algebra.Group.Nat.Defs
import MarketReplay.Text.Digits
import MarketReplay.Text.Padded

/-!
# Digits written and read

What is written of a number reads back as the number, filled with zeros or not
(`digitsValue_zeroPadded`), and the fill is exact as long as the number has no more digits than the
width (`length_zeroPadded_eq_iff`). Digits that read as a number are worth less than the next power
of the base (`digitsValue_lt`), and are a number of base ten (`baseNumber?_of_isDigit`).
-/

namespace MarketReplay.Text

/-- The number of some digits is that of the library's reading of digits. -/
theorem digitsValue_eq (digits : List Char) : digitsValue digits = Nat.ofDigitChars 10 digits 0 :=
  rfl

/-- The digits before others count by the power of the base that the others take. -/
theorem digitsValue_append (front back : List Char) :
    digitsValue (front ++ back) = 10 ^ back.length * digitsValue front + digitsValue back := by
  rw [digitsValue_eq, Nat.ofDigitChars_append, Nat.ofDigitChars_eq_ofDigitChars_zero]
  rfl

/-- Zeros are worth nothing. -/
theorem digitsValue_replicate_zero (n : Nat) : digitsValue (List.replicate n '0') = 0 := by
  rw [digitsValue_eq, Nat.ofDigitChars_replicate_zero, Nat.mul_zero]

/-- A digit is worth less than the base. -/
theorem digit_lt {c : Char} (h : c.isDigit) : c.toNat - '0'.toNat < 10 := by
  have hbounds := Char.isDigit_iff_toNat.1 h
  have hzero : '0'.toNat = 48 := rfl
  have hnine : '9'.toNat = 57 := rfl
  omega

/-- Digits are worth less than the power of the base that they take. -/
theorem digitsValue_lt {digits : List Char} (h : ∀ c ∈ digits, c.isDigit) :
    digitsValue digits < 10 ^ digits.length := by
  induction digits with
  | nil => exact Nat.one_pos
  | cons c rest ih =>
      have hdigit := digit_lt (h c List.mem_cons_self)
      have hrest := ih fun d hd => h d (List.mem_cons_of_mem c hd)
      have hfirst : digitsValue [c] = c.toNat - '0'.toNat := by simp [digitsValue]
      rw [← List.singleton_append, digitsValue_append, hfirst, List.singleton_append,
        List.length_cons, Nat.pow_succ]
      have hmul := Nat.mul_le_mul_left (10 ^ rest.length) (Nat.le_of_lt_succ hdigit)
      omega

/-- A natural number is written by its decimal digits. -/
theorem toList_toString (n : Nat) : (toString n).toList = Nat.toDigits 10 n := by
  rw [Nat.toString_eq_ofList_toDigits, String.toList_ofList]

/-- A padded number is its digits behind zeros. -/
theorem toList_zeroPadded (width n : Nat) :
    (zeroPadded width n).toList =
      List.replicate (width - (Nat.toDigits 10 n).length) '0' ++ Nat.toDigits 10 n := by
  rw [zeroPadded, padLeft, String.toList_append, String.toList_ofList, ← String.length_toList,
    toList_toString]

/-- A padded number reads as the number. -/
theorem digitsValue_zeroPadded (width n : Nat) : digitsValue (zeroPadded width n).toList = n := by
  rw [toList_zeroPadded, digitsValue_append, digitsValue_replicate_zero, Nat.mul_zero,
    Nat.zero_add, digitsValue_eq, Nat.ofDigitChars_ten_toDigits]

/-- Decimal digits are digits. -/
theorem isDigit_of_mem_toDigits {n : Nat} {c : Char} (h : c ∈ Nat.toDigits 10 n) : c.isDigit :=
  Nat.isDigit_of_mem_toDigits (by decide) (by decide) h

/-- A padded number is written by digits alone. -/
theorem isDigit_of_mem_zeroPadded {width n : Nat} {c : Char}
    (h : c ∈ (zeroPadded width n).toList) : c.isDigit := by
  rw [toList_zeroPadded] at h
  rcases List.mem_append.1 h with hzero | hdigit
  · rw [List.eq_of_mem_replicate hzero]
    decide
  · exact isDigit_of_mem_toDigits hdigit

/-- A padded number takes the width, or the digits it has if they are more. -/
theorem length_zeroPadded (width n : Nat) :
    (zeroPadded width n).toList.length = max width (Nat.toDigits 10 n).length := by
  rw [toList_zeroPadded, List.length_append, List.length_replicate]
  omega

/-- A padded number keeps to the width as long as it is below the power of the base that the width
takes. -/
theorem length_zeroPadded_eq_iff {width n : Nat} (hwidth : 0 < width) :
    (zeroPadded width n).toList.length = width ↔ n < 10 ^ width := by
  rw [length_zeroPadded, ← Nat.length_toDigits_le_iff (by decide : 1 < 10) hwidth]
  omega

/-- The digits of a number other than zero begin with another digit than zero. -/
theorem head?_toDigits_ne_zero {n : Nat} (h : n ≠ 0) : (Nat.toDigits 10 n).head? ≠ some '0' := by
  induction n using Nat.strongRecOn with
  | _ n ih =>
      by_cases hsmall : n < 10
      · have hdigit : ∀ m < 10, m ≠ 0 → [Nat.digitChar m].head? ≠ some '0' := by decide
        rw [Nat.toDigits_of_lt_base hsmall]
        exact hdigit n hsmall h
      · have hrest := ih (n / 10) (by omega) (by omega)
        rw [Nat.toDigits_of_base_le (by decide) (by omega), List.head?_append]
        cases hhead : (Nat.toDigits 10 (n / 10)).head? with
        | none => exact absurd (List.head?_eq_none_iff.1 hhead) Nat.toDigits_ne_nil
        | some c =>
            rw [hhead] at hrest
            exact hrest

/-- Decimal digits stand for a number of base ten. -/
theorem baseNumber?_of_isDigit {digits : List Char} (hne : digits ≠ [])
    (h : ∀ c ∈ digits, c.isDigit) : baseNumber? 10 digits = some (digitsValue digits) := by
  unfold baseNumber?
  rw [if_neg (by simpa using hne)]
  unfold digitsValue
  generalize 0 = n
  clear hne
  induction digits generalizing n with
  | nil => rfl
  | cons c rest ih =>
      obtain ⟨hc, hrest⟩ := List.forall_mem_cons.1 h
      have hvalue : digitValue? c = some (c.toNat - '0'.toNat) := if_pos hc
      rw [List.foldl_cons, List.foldl_cons, hvalue]
      simp only [if_pos (digit_lt hc)]
      exact ih hrest _

end MarketReplay.Text
