import Mathlib.Algebra.BigOperators.Group.Finset.Piecewise
import Mathlib.Algebra.BigOperators.Ring.List
import Mathlib.Algebra.GroupWithZero.Nat

/-!
# Sums by group

A sum over a list is the sum over the groups of its entries by a key (`sum_map_eq_sum_groups`).
-/

namespace MarketReplay

variable {α κ M : Type} [DecidableEq κ] [AddCommMonoid M]

/-- Among distinct keys that hold `key`, the summand of `key` alone is left. -/
theorem sum_map_single {keys : List κ} (hnodup : keys.Nodup) {key : κ} (hmem : key ∈ keys)
    (value : M) : (keys.map fun k => if key = k then value else 0).sum = value := by
  rw [← List.sum_toFinset _ hnodup, Finset.sum_ite_eq, if_pos (List.mem_toFinset.2 hmem)]

/-- A sum over a list is the sum over its groups, for distinct keys that cover the list. -/
theorem sum_map_eq_sum_groups (key : α → κ) (f : α → M) {keys : List κ} (hnodup : keys.Nodup)
    {l : List α} (hcover : ∀ a ∈ l, key a ∈ keys) :
    (l.map f).sum = (keys.map fun k => ((l.filter fun a => key a = k).map f).sum).sum := by
  induction l with
  | nil => simp
  | cons a rest ih =>
      have hrest := ih fun b hb => hcover b (List.mem_cons_of_mem _ hb)
      have hgroup : ∀ k, (((a :: rest).filter fun b => key b = k).map f).sum =
          (if key a = k then f a else 0) + ((rest.filter fun b => key b = k).map f).sum := by
        intro k
        by_cases hk : key a = k <;> simp [hk]
      simp only [hgroup]
      rw [List.map_cons, List.sum_cons, List.sum_map_add,
        sum_map_single hnodup (hcover a List.mem_cons_self), ← hrest]

/-- A list is as long as its groups together. -/
theorem length_eq_sum_groups (key : α → κ) {keys : List κ} (hnodup : keys.Nodup) {l : List α}
    (hcover : ∀ a ∈ l, key a ∈ keys) :
    l.length = (keys.map fun k => (l.filter fun a => key a = k).length).sum := by
  have hsum := sum_map_eq_sum_groups key (fun _ => 1) hnodup hcover
  simpa using hsum

/-- Counting the entries that satisfy a test, one by one. -/
theorem sum_indicator_eq_length (p : α → Prop) [DecidablePred p] (l : List α) :
    (l.map fun a => if p a then 1 else 0).sum = (l.filter fun a => p a).length := by
  induction l with
  | nil => rfl
  | cons a rest ih =>
      by_cases ha : p a
      · simp [ha, ih, Nat.add_comm 1]
      · simp [ha, ih]

end MarketReplay
