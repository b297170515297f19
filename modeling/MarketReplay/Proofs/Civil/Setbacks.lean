import MarketReplay.Civil.NewYork
import MarketReplay.Proofs.Civil.Moments

/-!
# Where the exchange's clock is put back

The offset of exchange time changes at whole hours of universal time only (`offsetAt_congr`), so
there is one change at most between two seconds that are no more than an hour apart. A later second
has an earlier local time exactly if the clock is put back between the two by more than the time
from one to the other (`localSecond_lt_iff`).
-/

namespace MarketReplay.NewYork

/-- A second of the epoch in exchange time. -/
def localSecond (second : Int) : Int := second + offsetAt second

/-- By how much the clock is put back at a second; less than nothing where it is put forward. -/
def setback (second : Int) : Int := offsetAt (second - 1) - offsetAt second

/-- Whether the clock is put back at once by an amount or more, after one second and up to
another. -/
def PutBack (s s' amount : Int) : Prop := ∃ t, s < t ∧ t ≤ s' ∧ amount ≤ setback t

/-! ### The offset -/

/-- The rule changes the offset at whole hours. -/
theorem exists_hours_of_sundayAt {year second : Int} {month n hour : Nat}
    (h : sundayAt? year month n hour = some second) : ∃ hours, second = hours * 3600 := by
  obtain ⟨d, -, rfl⟩ := Option.map_eq_some_iff.1 h
  exact ⟨(d.day - epochDay) * 24 + hour, by omega⟩

theorem ruleOffset_congr {s s' : Int} (h : s / 3600 = s' / 3600) :
    ruleOffset s = ruleOffset s' := by
  have hday : s / 86400 = s' / 86400 := by omega
  unfold ruleOffset
  rw [hday]
  simp only
  split
  · rfl
  · cases hsummer : sundayAt? (Civil.yearOfDay (s' / 86400 + epochDay)) 3 2 7 with
    | none => rfl
    | some summer =>
        cases hwinter : sundayAt? (Civil.yearOfDay (s' / 86400 + epochDay)) 11 1 6 with
        | none => rfl
        | some winter =>
            obtain ⟨first, rfl⟩ := exists_hours_of_sundayAt hsummer
            obtain ⟨last, rfl⟩ := exists_hours_of_sundayAt hwinter
            have hsame : (first * 3600 ≤ s && s < last * 3600) =
                (first * 3600 ≤ s' && s' < last * 3600) := by
              rw [Bool.eq_iff_iff]
              simp only [Bool.and_eq_true, decide_eq_true_eq]
              omega
            simp only [hsame]

/-- The seconds of an hour of universal time have one offset. -/
theorem offsetAt_congr {s s' : Int} (h : s / 3600 = s' / 3600) : offsetAt s = offsetAt s' := by
  have hstart : s < standardStart ↔ s' < standardStart := by
    unfold standardStart
    omega
  have hrule : s < ruleStart ↔ s' < ruleStart := by
    unfold ruleStart
    omega
  have hspan : spanOffset s = spanOffset s' := by
    have hhour : (s - standardStart) / 3600 = (s' - standardStart) / 3600 := by
      unfold standardStart
      omega
    unfold spanOffset
    rw [hhour]
  unfold offsetAt
  simp only [hstart, hrule, hspan, ruleOffset_congr h]

/-- From the beginning of standard time on there are two offsets. -/
theorem offsetAt_of_le {s : Int} (h : standardStart ≤ s) :
    offsetAt s = standardOffset ∨ offsetAt s = daylightOffset := by
  unfold offsetAt
  rw [if_neg (Int.not_lt.2 h)]
  split
  · unfold spanOffset
    simp only
    split
    · exact .inr rfl
    · exact .inl rfl
  · unfold ruleOffset
    simp only
    split
    · exact .inl rfl
    · split
      · split
        · exact .inr rfl
        · exact .inl rfl
      · exact .inl rfl

/-- Local mean time is between the two. -/
theorem offsetAt_mem (s : Int) : standardOffset ≤ offsetAt s ∧ offsetAt s ≤ daylightOffset := by
  by_cases h : s < standardStart
  · unfold offsetAt
    rw [if_pos h]
    decide
  · rcases offsetAt_of_le (Int.not_lt.1 h) with hsame | hsame <;> rw [hsame] <;> decide

theorem setback_le (t : Int) : setback t ≤ 3600 := by
  have hbefore := (offsetAt_mem (t - 1)).2
  have hafter := (offsetAt_mem t).1
  unfold setback
  unfold daylightOffset at hbefore
  unfold standardOffset at hafter
  omega

/-! ### The order of local times -/

/-- Between two seconds with different offsets there is a change. -/
theorem exists_change {s s' : Int} (h : s ≤ s') (hne : offsetAt s ≠ offsetAt s') :
    ∃ t, s < t ∧ t ≤ s' ∧ offsetAt (t - 1) ≠ offsetAt t := by
  obtain ⟨n, rfl⟩ := Int.le.dest h
  induction n with
  | zero => exact absurd (by simp) hne
  | succ n ih =>
      by_cases hlast : offsetAt (s + n) = offsetAt (s + (n + 1 : Nat))
      · obtain ⟨t, hs, ht, hchange⟩ := ih (by omega) (hlast ▸ hne)
        exact ⟨t, hs, by omega, hchange⟩
      · refine ⟨s + (n + 1 : Nat), by omega, Int.le_refl _, ?_⟩
        have hbefore : s + (n + 1 : Nat) - 1 = s + n := by omega
        rwa [hbefore]

/-- Around a change, the seconds up to an hour apart have the offsets before it and from it on. -/
theorem offsetAt_around {s s' t : Int} (hs : s < t) (ht : t ≤ s') (hnear : s' - s ≤ 3600)
    (hchange : offsetAt (t - 1) ≠ offsetAt t) :
    offsetAt s = offsetAt (t - 1) ∧ offsetAt s' = offsetAt t := by
  have hhour : (t - 1) / 3600 ≠ t / 3600 := fun hsame => hchange (offsetAt_congr hsame)
  exact ⟨offsetAt_congr (by omega), offsetAt_congr (by omega)⟩

/-- Between two seconds that are no further apart than an amount, the clock is put back by it or
more exactly if the offsets differ so much. -/
theorem putBack_iff {s s' amount : Int} (h : s < s') (hamount : s' - s ≤ amount) :
    PutBack s s' amount ↔ amount ≤ offsetAt s - offsetAt s' := by
  constructor
  · rintro ⟨t, hs, ht, hback⟩
    have hle := setback_le t
    obtain ⟨hbefore, hafter⟩ := offsetAt_around hs ht (by omega) fun hsame => by
      unfold setback at hback
      omega
    rw [hbefore, hafter]
    exact hback
  · intro hdrop
    have hbefore := (offsetAt_mem s).2
    have hafter := (offsetAt_mem s').1
    have hnear : s' - s ≤ 3600 := by
      unfold daylightOffset at hbefore
      unfold standardOffset at hafter
      omega
    obtain ⟨t, hs, ht, hchange⟩ := exists_change (Int.le_of_lt h) (by omega)
    obtain ⟨hsame, hsame'⟩ := offsetAt_around hs ht hnear hchange
    refine ⟨t, hs, ht, ?_⟩
    rwa [setback, ← hsame, ← hsame']

/-- A later second has no later local time exactly if the clock is put back by the time between the
two or more. -/
theorem localSecond_le_iff {s s' : Int} (h : s < s') :
    localSecond s' ≤ localSecond s ↔ PutBack s s' (s' - s) := by
  rw [putBack_iff h (Int.le_refl _)]
  unfold localSecond
  omega

/-- A later second has an earlier local time exactly if the clock is put back by more than the time
between the two. -/
theorem localSecond_lt_iff {s s' : Int} (h : s < s') :
    localSecond s' < localSecond s ↔ PutBack s s' (s' - s + 1) := by
  rw [putBack_iff h (by omega)]
  unfold localSecond
  omega

/-! ### Moments -/

/-- The number that orders the moment of a second. -/
theorem stamp_local? {s : Int} {t : DateTime} (h : local? s = some t) :
    t.stamp = (localSecond s + epochDay * 86400) * 2000000000 := by
  unfold local? universal? at h
  split at h
  · cases h
  · rename_i date hdate
    have hday := Date.ofDay?_eq_some_iff.1 hdate
    obtain rfl := Option.some.inj h
    unfold DateTime.stamp localSecond
    simp only
    omega

/-- Moments of exchange time are in the order of the local seconds. -/
theorem local?_le_iff {s s' : Int} {t t' : DateTime} (h : local? s = some t)
    (h' : local? s' = some t') : t ≤ t' ↔ localSecond s ≤ localSecond s' := by
  have hstamp := stamp_local? h
  have hstamp' := stamp_local? h'
  show t.stamp ≤ t'.stamp ↔ _
  omega

end MarketReplay.NewYork
