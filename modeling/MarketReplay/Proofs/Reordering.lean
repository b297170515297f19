import Mathlib.Data.List.Basic

/-!
# Reorderings that respect a key

A list is reordered by a key if its items of one key keep their order (`Reordered`). A stable sort
whose ties are the items of one key does the same to all such reorderings
(`SortsBy.mergeSort_eq`).
-/

namespace MarketReplay

variable {α β κ : Type} [DecidableEq κ] {key : α → κ} {l l' : List α}

/-- Whether a list has the items of another, those of one key in the same order. -/
structure Reordered (key : α → κ) (l l' : List α) : Prop where
  perm : l'.Perm l
  filter_eq : ∀ k, l'.filter (fun a => key a = k) = l.filter fun a => key a = k

namespace Reordered

/-- The same holds the other way round. -/
theorem symm (h : Reordered key l l') : Reordered key l' l :=
  ⟨h.perm.symm, fun k => (h.filter_eq k).symm⟩

/-- A reordering of a reordering is one. -/
theorem trans {l'' : List α} (h : Reordered key l l') (h' : Reordered key l' l'') :
    Reordered key l l'' :=
  ⟨h'.perm.trans h.perm, fun k => (h'.filter_eq k).trans (h.filter_eq k)⟩

/-- Neighbours with different keys may change their places. -/
theorem swap {a b : α} (hne : key a ≠ key b) (tail : List α) :
    Reordered key (a :: b :: tail) (b :: a :: tail) := by
  refine ⟨.swap a b tail, fun k => ?_⟩
  by_cases ha : key a = k
  · have hb : key b ≠ k := fun hb => hne (ha.trans hb.symm)
    simp [ha, hb]
  · simp [List.filter_cons, ha]

/-- Lists reordered with the same items behind them. -/
theorem append (h : Reordered key l l') (tail : List α) :
    Reordered key (l ++ tail) (l' ++ tail) := by
  refine ⟨h.perm.append_right tail, fun k => ?_⟩
  rw [List.filter_append, List.filter_append, h.filter_eq]

/-- The images of the items of a reordered list, if the key of an image is told by that of the item:
`keyOf` is the key that the item of an image with this key has. -/
theorem filterMap {ι : Type} [DecidableEq ι] {f : α → Option β} {key' : β → ι}
    (h : Reordered key l l') (keyOf : ι → κ)
    (hkey : ∀ a b k, f a = some b → (key' b = k ↔ key a = keyOf k)) :
    Reordered key' (l.filterMap f) (l'.filterMap f) := by
  have hfilter : ∀ (m : List α) (k : ι), (m.filterMap f).filter (fun b => key' b = k) =
      (m.filter fun a => key a = keyOf k).filterMap f := by
    intro m k
    rw [List.filter_filterMap, List.filterMap_filter]
    refine List.filterMap_congr fun a _ => ?_
    cases himage : f a with
    | none => simp
    | some b => simp [Option.filter, hkey a b k himage]
  refine ⟨h.perm.filterMap f, fun k => ?_⟩
  rw [hfilter, hfilter, h.filter_eq]

end Reordered

/-- Whether an order is total and its ties are the items of one key. -/
structure SortsBy (le : α → α → Bool) (key : α → κ) : Prop where
  trans : ∀ a b c, le a b → le b c → le a c
  total : ∀ a b, le a b || le b a
  tie_iff : ∀ a b, key a = key b ↔ le a b ∧ le b a

namespace SortsBy

variable {le : α → α → Bool}

omit [DecidableEq κ] in
/-- A sorted list is in the order. -/
theorem pairwise_mergeSort (hs : SortsBy le key) (l : List α) :
    (l.mergeSort le).Pairwise fun a b => le a b :=
  List.pairwise_mergeSort hs.trans hs.total l

/-- The sort keeps the order of the items of one key. -/
theorem reordered_mergeSort (hs : SortsBy le key) (l : List α) :
    Reordered key l (l.mergeSort le) := by
  have hperm := List.mergeSort_perm l le
  refine ⟨hperm, fun k => ?_⟩
  have hties : (l.filter fun a => key a = k).Pairwise fun a b => le a b := by
    refine List.pairwise_filter.2 (List.pairwise_of_forall fun a b ha hb => ?_)
    have hsame : key a = key b := (of_decide_eq_true ha).trans (of_decide_eq_true hb).symm
    exact ((hs.tie_iff a b).1 hsame).1
  have hsub := (List.sublist_mergeSort hs.trans hs.total hties List.filter_sublist).filter
    fun a => key a = k
  simp only [List.filter_filter, Bool.and_self] at hsub
  exact (hsub.eq_of_length (hperm.filter _).length_eq.symm).symm

/-- Sorted lists with the same items of each key are the same. -/
theorem eq_of_pairwise (hs : SortsBy le key) (hl : l.Pairwise fun a b => le a b)
    (hl' : l'.Pairwise fun a b => le a b) (h : Reordered key l l') : l' = l := by
  induction l generalizing l' with
  | nil => exact h.perm.eq_nil
  | cons a rest ih =>
      obtain ⟨ha, hrest⟩ := List.pairwise_cons.1 hl
      cases l' with
      | nil => cases h.perm.symm.eq_nil
      | cons b rest' =>
          obtain ⟨hb, hrest'⟩ := List.pairwise_cons.1 hl'
          -- Each head is in the other list, so they tie; the items of their key start with both.
          have htie : key a = key b := by
            rcases List.mem_cons.1 (h.perm.mem_iff.1 List.mem_cons_self) with rfl | hmem
            · rfl
            rcases List.mem_cons.1 (h.perm.mem_iff.2 List.mem_cons_self) with rfl | hmem'
            · rfl
            exact (hs.tie_iff a b).2 ⟨ha b hmem, hb a hmem'⟩
          have hhead := h.filter_eq (key a)
          simp only [List.filter_cons, htie, decide_true, if_true] at hhead
          obtain rfl : b = a := (List.cons.inj hhead).1
          have htail : Reordered key rest rest' := by
            refine ⟨h.perm.cons_inv, fun k => ?_⟩
            have hk := h.filter_eq k
            simp only [List.filter_cons] at hk
            split at hk
            · exact (List.cons.inj hk).2
            · exact hk
          rw [ih hrest hrest' htail]

/-- Sorting undoes a reordering. -/
theorem mergeSort_eq (hs : SortsBy le key) (h : Reordered key l l') :
    l'.mergeSort le = l.mergeSort le := by
  refine hs.eq_of_pairwise (hs.pairwise_mergeSort l) (hs.pairwise_mergeSort l') ?_
  exact (hs.reordered_mergeSort l).symm.trans (h.trans (hs.reordered_mergeSort l'))

end SortsBy

end MarketReplay
