import Mathlib.Data.List.TakeWhile
import MarketReplay.Text.Blank

/-!
# Blank margins

A text is its trimmed part between two blank margins (`exists_margins`). What holds no blank stands
between margins exactly when it is what trimming leaves (`trim_eq_iff`), and blanks on the right are
no part of what trimming on the right leaves (`trimRight_append`).
-/

namespace MarketReplay.Text

variable {cs front back : List Char} {c : Char}

/-- The characters between the space and the first control character behind it are not blank. -/
theorem isBlank_of_visible (hlow : 0x20 < c.toNat) (hhigh : c.toNat < 0x7f) : isBlank c = false := by
  simp only [isBlank, Bool.or_eq_false_iff, Bool.and_eq_false_iff, decide_eq_false_iff_not,
    beq_eq_false_iff_ne]
  omega

/-- Digits are not blank. -/
theorem isBlank_of_isDigit (h : c.isDigit) : isBlank c = false := by
  have hbounds := Char.isDigit_iff_toNat.1 h
  have hzero : '0'.toNat = 48 := rfl
  have hnine : '9'.toNat = 57 := rfl
  exact isBlank_of_visible (by omega) (by omega)

/-- Blanks on the left are trimmed. -/
theorem trimLeft_append (h : ∀ c ∈ front, isBlank c) (cs : List Char) :
    trimLeft (front ++ cs) = trimLeft cs :=
  List.dropWhile_append_of_pos h

/-- Blanks on the right are trimmed. -/
theorem trimRight_append (h : ∀ c ∈ back, isBlank c) (cs : List Char) :
    trimRight (cs ++ back) = trimRight cs := by
  have hreverse : ∀ c ∈ back.reverse, isBlank c := fun c hc => h c (List.mem_reverse.1 hc)
  unfold trimRight
  rw [List.reverse_append, List.dropWhile_append_of_pos hreverse]

/-- A text that begins with a character that is not blank is not trimmed on the left. -/
theorem trimLeft_cons (h : isBlank c = false) (cs : List Char) : trimLeft (c :: cs) = c :: cs := by
  rw [trimLeft, List.dropWhile_cons, h]
  rfl

/-- A text that ends with a character that is not blank is not trimmed on the right. -/
theorem trimRight_concat (h : isBlank c = false) (cs : List Char) :
    trimRight (cs ++ [c]) = cs ++ [c] := by
  have hreverse := trimLeft_cons h cs.reverse
  rw [trimLeft] at hreverse
  rw [trimRight, List.reverse_append, List.reverse_singleton, List.singleton_append, hreverse,
    List.reverse_cons, List.reverse_reverse]

/-- A text without blanks is not trimmed on the right. -/
theorem trimRight_eq_self (h : ∀ c ∈ cs, isBlank c = false) : trimRight cs = cs := by
  rcases List.eq_nil_or_concat cs with rfl | ⟨init, last, rfl⟩
  · rfl
  · rw [List.concat_eq_append] at h ⊢
    exact trimRight_concat (h last List.mem_concat_self) init

/-- A text without blanks is not trimmed on the left. -/
theorem trimLeft_eq_self (h : ∀ c ∈ cs, isBlank c = false) : trimLeft cs = cs := by
  cases cs with
  | nil => rfl
  | cons c rest => exact trimLeft_cons (h c List.mem_cons_self) rest

/-- What is trimmed on the right is a blank margin. -/
theorem exists_trimRight (cs : List Char) :
    ∃ back, (∀ c ∈ back, isBlank c) ∧ cs = trimRight cs ++ back := by
  refine ⟨(cs.reverse.takeWhile isBlank).reverse, fun c hc => ?_, ?_⟩
  · exact List.mem_takeWhile_imp (List.mem_reverse.1 hc)
  · rw [trimRight, ← List.reverse_append, List.takeWhile_append_dropWhile, List.reverse_reverse]

/-- A text is its trimmed part between two blank margins. -/
theorem exists_margins (cs : List Char) :
    ∃ front back, (∀ c ∈ front, isBlank c) ∧ (∀ c ∈ back, isBlank c) ∧
      cs = front ++ trim cs ++ back := by
  obtain ⟨back, hback, hright⟩ := exists_trimRight (trimLeft cs)
  refine ⟨cs.takeWhile isBlank, back, fun c hc => List.mem_takeWhile_imp hc, hback, ?_⟩
  rw [trim, List.append_assoc, ← hright, trimLeft, List.takeWhile_append_dropWhile]

/-- What holds no blank is what trimming leaves of it between blank margins, and of nothing
else. -/
theorem trim_eq_iff {inner : List Char} (h : ∀ c ∈ inner, isBlank c = false) :
    trim cs = inner ↔ ∃ front back, (∀ c ∈ front, isBlank c) ∧ (∀ c ∈ back, isBlank c) ∧
      cs = front ++ inner ++ back := by
  constructor
  · rintro rfl
    exact exists_margins cs
  · rintro ⟨front, back, hfront, hback, rfl⟩
    rw [trim, List.append_assoc, trimLeft_append hfront]
    cases inner with
    | nil =>
        have hnil : trim ([] ++ back) = [] := (trim_eq_nil_iff _).2 (List.all_eq_true.2 hback)
        exact hnil
    | cons c rest =>
        rw [List.cons_append, trimLeft_cons (h c List.mem_cons_self), ← List.cons_append,
          trimRight_append hback, trimRight_eq_self h]

end MarketReplay.Text
