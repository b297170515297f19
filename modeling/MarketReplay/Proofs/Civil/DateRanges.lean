import MarketReplay.Proofs.Civil.Moments

/-!
# Ranges of dates

The dates from one through another, in their order (`Date.mem_datesThrough`,
`Date.datesThrough_rising`).
-/

namespace MarketReplay.Date

/-- The dates from one through another; none if the second is earlier. -/
def datesThrough (first last : Date) : List Date :=
  (List.range (last.day + 1 - first.day).toNat).filterMap fun (i : Nat) => first.addDays? i

variable {first last d : Date}

/-- The dates from one through another are those that are neither before nor after. -/
theorem mem_datesThrough : d ∈ first.datesThrough last ↔ first ≤ d ∧ d ≤ last := by
  have hfirst : first ≤ d ↔ first.day ≤ d.day := Iff.rfl
  have hlast : d ≤ last ↔ d.day ≤ last.day := Iff.rfl
  rw [hfirst, hlast, datesThrough, List.mem_filterMap]
  simp only [List.mem_range, addDays?_eq_some_iff]
  constructor
  · rintro ⟨i, hi, hday⟩
    omega
  · rintro ⟨hle, hle'⟩
    exact ⟨(d.day - first.day).toNat, by omega, by omega⟩

/-- They stand in their order. -/
theorem datesThrough_rising (first last : Date) :
    (first.datesThrough last).Pairwise (· < ·) := by
  refine List.pairwise_filterMap.2 (List.pairwise_lt_range.imp ?_)
  intro i j hij d hd d' hd'
  have hday := addDays?_eq_some_iff.1 hd
  have hday' := addDays?_eq_some_iff.1 hd'
  show d.day < d'.day
  omega

/-- Dates in their order are all different. -/
theorem nodup_of_rising {l : List Date} (h : l.Pairwise (· < ·)) : l.Nodup := by
  refine h.imp ?_
  rintro d d' hlt rfl
  exact Int.lt_irrefl _ hlt

/-- No date is listed twice. -/
theorem nodup_datesThrough (first last : Date) : (first.datesThrough last).Nodup :=
  nodup_of_rising (datesThrough_rising first last)

/-- Lists of dates in their order with the same members are the same. -/
theorem rising_ext {l l' : List Date} (h : l.Pairwise (· < ·)) (h' : l'.Pairwise (· < ·))
    (hmem : ∀ d, d ∈ l ↔ d ∈ l') : l = l' := by
  have hperm := (List.perm_ext_iff_of_nodup (nodup_of_rising h) (nodup_of_rising h')).2 hmem
  exact hperm.eq_of_pairwise (fun d d' _ _ hlt hgt => absurd hlt (Int.lt_asymm hgt)) h h'

end MarketReplay.Date
