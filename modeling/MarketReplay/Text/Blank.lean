/-!
# Blank characters

The characters with the white space property of the character set, and trimming by it. A trimmed
text begins and ends with a character that is not blank (`trim_eq_nil_iff` settles the rest).
-/

namespace MarketReplay.Text

/-- Characters with the white space property. -/
def isBlank (c : Char) : Bool :=
  let n := c.toNat
  (0x9 ≤ n && n ≤ 0xd) || n == 0x20 || n == 0x85 || n == 0xa0 || n == 0x1680 ||
    (0x2000 ≤ n && n ≤ 0x200a) || n == 0x2028 || n == 0x2029 || n == 0x202f || n == 0x205f ||
    n == 0x3000

/-- The characters from the first that is not blank. -/
def trimLeft (cs : List Char) : List Char := cs.dropWhile isBlank

/-- The characters up to the last that is not blank. -/
def trimRight (cs : List Char) : List Char := (cs.reverse.dropWhile isBlank).reverse

/-- The characters between the first and the last that are not blank. -/
def trim (cs : List Char) : List Char := trimRight (trimLeft cs)

/-- `trim` on a string. -/
def trimmed (s : String) : String := String.ofList (trim s.toList)

/-- `trimRight` on a string. -/
def trimmedRight (s : String) : String := String.ofList (trimRight s.toList)

/-- A text trims to nothing exactly when it is blank throughout. -/
theorem trim_eq_nil_iff (cs : List Char) : trim cs = [] ↔ cs.all isBlank = true := by
  have hdrop : ∀ l : List Char, l.dropWhile isBlank = [] ↔ l.all isBlank = true := by
    intro l
    induction l with
    | nil => simp
    | cons c rest ih =>
      by_cases hc : isBlank c = true
      · simp [List.dropWhile, hc, ih]
      · simp [List.dropWhile, hc]
  have hhead : ∀ l : List Char, l.dropWhile isBlank ≠ [] →
      (l.dropWhile isBlank).all isBlank = false := by
    intro l
    induction l with
    | nil => simp
    | cons c rest ih =>
      by_cases hc : isBlank c = true
      · simpa [List.dropWhile, hc] using ih
      · simp [List.dropWhile, hc]
  unfold trim trimRight trimLeft
  rw [List.reverse_eq_nil_iff, hdrop, List.all_reverse]
  constructor
  · intro h
    refine (hdrop cs).1 (Classical.byContradiction fun hne => ?_)
    rw [hhead cs hne] at h
    exact absurd h (by decide)
  · intro h
    rw [(hdrop cs).2 h]
    rfl

end MarketReplay.Text
