/-!
# Splitting

The parts of a text between the places of a separator. There is at least one (`split_ne_nil`), and
the parts hold no separator (`not_mem_of_mem_split`).
-/

namespace MarketReplay.Text

/-- The parts between separators; there is one more of them than there are separators. -/
def split (sep : Char) : List Char → List (List Char)
  | [] => [[]]
  | c :: rest =>
    if c = sep then [] :: split sep rest
    else
      match split sep rest with
      | [] => [[c]]
      | part :: parts => (c :: part) :: parts

/-- There is a first part. -/
theorem split_ne_nil (sep : Char) (cs : List Char) : split sep cs ≠ [] := by
  cases cs with
  | nil => simp [split]
  | cons c rest =>
    rw [split]
    split
    · simp
    · split <;> simp

/-- The parts hold no separator. -/
theorem not_mem_of_mem_split {sep : Char} {cs part : List Char} (h : part ∈ split sep cs) :
    sep ∉ part := by
  induction cs generalizing part with
  | nil =>
    simp [split] at h
    simp [h]
  | cons c rest ih =>
    rw [split] at h
    split at h
    · rcases List.mem_cons.1 h with rfl | h
      · simp
      · exact ih h
    · rename_i hc
      split at h
      · rename_i hnil
        exact absurd hnil (split_ne_nil sep rest)
      · rename_i first parts hparts
        rcases List.mem_cons.1 h with rfl | h
        · have := ih (hparts ▸ List.mem_cons_self)
          simp [this, Ne.symm hc]
        · exact ih (hparts ▸ List.mem_cons_of_mem _ h)

end MarketReplay.Text
