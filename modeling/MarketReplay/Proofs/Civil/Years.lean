import MarketReplay.Proofs.Calendar.Sessions

/-!
# Dates and their parts

A day number lies in exactly one year (`Civil.yearStart_yearOfDay`, `Civil.eq_yearOfDay`), and the
days since January 1 split into a month and a day of that month (`Civil.splitOrdinal_spec`). So a
date is the one of its year, month and day of month (`Date.ofCivil?_parts`), and a date made of a
year lies in that year (`Date.year_of_ofCivil?`).
-/

namespace MarketReplay

namespace Civil

/-! ### Years -/

/-- The next year starts after 365 days, after a leap year one day later. -/
theorem yearStart_succ (y : Int) :
    yearStart (y + 1) = yearStart y + if isLeapYear y then 366 else 365 := by
  simp only [yearStart, isLeapYear, Bool.and_eq_true, Bool.or_eq_true, beq_iff_eq, bne_iff_ne]
  split <;> omega

/-- A day lies in its year. -/
theorem yearStart_yearOfDay (day : Int) :
    yearStart (yearOfDay day) ≤ day ∧ day < yearStart (yearOfDay day + 1) := by
  unfold yearOfDay
  simp only
  have hlow := Int.mul_ediv_self_le (x := day * 400) (k := 146097) (by decide)
  have hhigh := Int.lt_mul_ediv_self_add (x := day * 400) (k := 146097) (by decide)
  generalize day * 400 / 146097 = elapsed at hlow hhigh
  split
  · unfold yearStart at *
    omega
  · split
    · unfold yearStart at *
      omega
    · omega

/-- Years start in their order. -/
theorem yearStart_le {y y' : Int} (h : y ≤ y') : yearStart y ≤ yearStart y' := by
  rcases Int.lt_or_eq_of_le h with hlt | rfl
  · have := yearStart_add_le hlt
    omega
  · exact Int.le_refl _

/-- A day lies in no other year than its own. -/
theorem eq_yearOfDay {day y : Int} (hstart : yearStart y ≤ day) (hend : day < yearStart (y + 1)) :
    yearOfDay day = y := by
  obtain ⟨hown, hnext⟩ := yearStart_yearOfDay day
  rcases Int.lt_trichotomy (yearOfDay day) y with hlt | heq | hgt
  · have hle := yearStart_le (Int.add_one_le_of_lt hlt)
    omega
  · exact heq
  · have hle := yearStart_le (Int.add_one_le_of_lt hgt)
    omega

/-! ### Months -/

/-- The twelve months make the year. -/
theorem daysBeforeMonth_thirteen (leap : Bool) :
    daysBeforeMonth leap 13 = if leap then 366 else 365 := by
  cases leap <;> rfl

/-- More months have more days. -/
theorem daysBeforeMonth_le (leap : Bool) {m n : Nat} (h : m ≤ n) :
    daysBeforeMonth leap m ≤ daysBeforeMonth leap n := by
  induction h with
  | refl => exact Nat.le_refl _
  | step _ ih => exact Nat.le_trans ih (Nat.le_add_right _ _)

/-- Days that the months from `month` on hold are split into one of these months and a day of it,
with the days before that month and the day adding up to what was split. -/
theorem splitOrdinal_spec (leap : Bool) (months month ordinal : Nat)
    (h : daysBeforeMonth leap month + ordinal < daysBeforeMonth leap (month + months + 1)) :
    month ≤ (splitOrdinal leap months month ordinal).1 ∧
      (splitOrdinal leap months month ordinal).1 ≤ month + months ∧
      1 ≤ (splitOrdinal leap months month ordinal).2 ∧
      (splitOrdinal leap months month ordinal).2 ≤
        daysInMonth leap (splitOrdinal leap months month ordinal).1 ∧
      daysBeforeMonth leap (splitOrdinal leap months month ordinal).1 +
          (splitOrdinal leap months month ordinal).2 = daysBeforeMonth leap month + ordinal + 1 := by
  induction months generalizing month ordinal with
  | zero =>
      have hlast : daysBeforeMonth leap (month + 1) =
          daysBeforeMonth leap month + daysInMonth leap month := rfl
      simp only [splitOrdinal]
      rw [Nat.add_zero, hlast] at h
      omega
  | succ months ih =>
      have hnext : daysBeforeMonth leap (month + 1) =
          daysBeforeMonth leap month + daysInMonth leap month := rfl
      rw [splitOrdinal]
      split
      · simp only
        omega
      · rename_i hle
        have hshift : month + 1 + months + 1 = month + (months + 1) + 1 := by omega
        have hrest := ih (month + 1) (ordinal - daysInMonth leap month) (by rw [hshift]; omega)
        omega

end Civil

namespace Date

open Civil

/-- The day of a date since January 1 lies in its year. -/
theorem ordinal_spec (d : Date) :
    (d.ordinal : Int) = d.day - yearStart d.year ∧
      d.ordinal < daysBeforeMonth (isLeapYear d.year) 13 := by
  obtain ⟨hstart, hend⟩ := yearStart_yearOfDay d.day
  rw [yearStart_succ] at hend
  rw [daysBeforeMonth_thirteen]
  unfold ordinal year
  split <;> simp_all <;> omega

/-- A date is the one of its year, month and day of month. -/
theorem ofCivil?_parts (d : Date) : ofCivil? d.year d.month d.dayOfMonth = some d := by
  obtain ⟨hordinal, hlt⟩ := d.ordinal_spec
  have hfirst : daysBeforeMonth (isLeapYear d.year) 1 = 0 := rfl
  obtain ⟨hlow, hhigh, hday, hlast, hsum⟩ := splitOrdinal_spec (isLeapYear d.year) 11 1
    d.ordinal (by rw [hfirst, Nat.zero_add]; exact hlt)
  unfold ofCivil? month dayOfMonth monthDay
  simp only
  rw [if_pos (by simp only [Bool.and_eq_true, decide_eq_true_eq]; omega), ofDay?_eq_some_iff]
  omega

/-- A date has one of twelve months, and no month has more than 31 days. -/
theorem bounds_of_ofCivil? {y : Int} {month dayOfMonth : Nat} {d : Date}
    (h : ofCivil? y month dayOfMonth = some d) :
    1 ≤ month ∧ month ≤ 12 ∧ 1 ≤ dayOfMonth ∧ dayOfMonth ≤ 31 := by
  obtain ⟨-, hfirst, hlast⟩ := day_of_ofCivil? h
  unfold daysInMonth at hlast
  split at hlast
  case h_2 => split at hlast <;> omega
  all_goals omega

/-- A date of a year, month and day lies in that year. -/
theorem year_of_ofCivil? {y : Int} {month dayOfMonth : Nat} {d : Date}
    (h : ofCivil? y month dayOfMonth = some d) : d.year = y := by
  obtain ⟨hday, -, hlast⟩ := day_of_ofCivil? h
  obtain ⟨-, hmonth, hfirst, -⟩ := bounds_of_ofCivil? h
  have hle := daysBeforeMonth_le (isLeapYear y) (Nat.succ_le_succ hmonth)
  have hnext := yearStart_succ y
  rw [daysBeforeMonth_thirteen, daysBeforeMonth] at hle
  refine eq_yearOfDay (by omega) ?_
  split at hle <;> simp_all <;> omega

end Date

end MarketReplay
