import MarketReplay.Proofs.Civil.Years

/-!
# Easter Sunday

From year 0 on the chained divisions give the first Sunday after the full moon of spring. The term
`paschalOffset` counts the days from March 21 to that full moon, but for its two corrections
(`fullMoonOffset`); the terms behind it add the days to the next Sunday. `easterNumber_window` says
that Easter falls in the week after the full moon, `day_easterNumber_emod` that it is a Sunday.
-/

namespace MarketReplay

namespace Civil

/-- March 1 counted through the leap days before it. -/
theorem yearStart_add_daysBeforeMarch (y : Int) :
    yearStart y + daysBeforeMonth (isLeapYear y) 3 = 365 * y + y / 4 - y / 100 + y / 400 - 306 := by
  have hbefore : (daysBeforeMonth (isLeapYear y) 3 : Int) = if isLeapYear y then 60 else 59 := by
    cases isLeapYear y <;> rfl
  rw [hbefore]
  simp only [yearStart, isLeapYear, Bool.and_eq_true, Bool.or_eq_true, beq_iff_eq, bne_iff_ne]
  split <;> omega

end Civil

namespace Date

open Civil

/-- There is a date of a valid month and day in every year of the calendar. -/
theorem exists_ofCivil? {y : Int} (month dayOfMonth : Nat) (hfirst : -262143 ≤ y)
    (hlast : y ≤ 262142) (hmonth : month ≤ 12) (hday : 1 ≤ dayOfMonth)
    (hdays : dayOfMonth ≤ daysInMonth (isLeapYear y) month) :
    ∃ d, ofCivil? y month dayOfMonth = some d ∧
      d.day = yearStart y + daysBeforeMonth (isLeapYear y) month + dayOfMonth - 1 := by
  have hpositive : 1 ≤ month := by
    rcases Nat.eq_zero_or_pos month with rfl | hpos
    · exact absurd hday (Nat.not_le.2 (Nat.lt_succ_of_le hdays))
    · exact hpos
  have hstart : firstDay ≤ yearStart y := yearStart_le hfirst
  have hend : yearStart (y + 1) ≤ lastDay + 1 := yearStart_le (Int.add_le_add_right hlast 1)
  -- The month ends with the year or before.
  have hmonths : daysBeforeMonth (isLeapYear y) month + daysInMonth (isLeapYear y) month ≤
      daysBeforeMonth (isLeapYear y) 13 := daysBeforeMonth_le _ (Nat.succ_le_succ hmonth)
  have hyear : yearStart y + daysBeforeMonth (isLeapYear y) 13 = yearStart (y + 1) := by
    rw [yearStart_succ, daysBeforeMonth_thirteen]
    split <;> rfl
  have hin : firstDay ≤ yearStart y + daysBeforeMonth (isLeapYear y) month + dayOfMonth - 1 ∧
      yearStart y + daysBeforeMonth (isLeapYear y) month + dayOfMonth - 1 ≤ lastDay := by
    omega
  refine ⟨⟨_, hin.1, hin.2⟩, ?_, rfl⟩
  unfold ofCivil?
  simp only
  rw [if_pos (by simp only [Bool.and_eq_true, decide_eq_true_eq]; omega)]
  exact ofDay?_eq_some_iff.2 rfl

/-- The weekday of a date is its day number by sevens. -/
theorem weekday_eq_iff {d : Date} {weekday : Weekday} :
    d.weekday = weekday ↔ d.day % 7 = weekday.index := by
  have hindex := d.index_weekday
  constructor
  · rintro rfl
    exact hindex.symm
  · intro h
    have hsame : d.weekday.index = weekday.index := by omega
    revert hsame
    cases d.weekday <;> cases weekday <;> simp [Weekday.index]

/-- Whether a date is one of a year from one month and day to another, both included. -/
def Within (d : Date) (year : Int) (first last : Nat × Nat) : Prop :=
  ∃ a b, ofCivil? year first.1 first.2 = some a ∧ ofCivil? year last.1 last.2 = some b ∧
    a ≤ d ∧ d ≤ b

/-- The dates from March to April are told by their day numbers. -/
theorem within_spring {y : Int} (hfirst : -262143 ≤ y) (hlast : y ≤ 262142) {d : Date} {m n : Nat}
    (hm : 1 ≤ m ∧ m ≤ 31) (hn : 1 ≤ n ∧ n ≤ 30)
    (hd : yearStart y + daysBeforeMonth (isLeapYear y) 3 + m ≤ d.day + 1)
    (hd' : d.day < yearStart y + daysBeforeMonth (isLeapYear y) 3 + 31 + n) :
    d.Within y (3, m) (4, n) := by
  obtain ⟨a, ha, haday⟩ := exists_ofCivil? 3 m hfirst hlast (by decide) hm.1 hm.2
  obtain ⟨b, hb, hbday⟩ := exists_ofCivil? 4 n hfirst hlast (by decide) hn.1 hn.2
  have hapril : daysBeforeMonth (isLeapYear y) 4 = daysBeforeMonth (isLeapYear y) 3 + 31 := rfl
  refine ⟨a, b, ha, hb, ?_, ?_⟩
  · show a.day ≤ d.day
    omega
  · show d.day ≤ b.day
    omega

end Date

namespace Calendar

open Civil

/-! ### The full moon and the Sunday after it -/

/-- Days from March 21 to the full moon of spring: a full moon on April 19 counts for April 18, and
from the twelfth year of the cycle of the moon one on April 18 counts for April 17. -/
def fullMoonOffset (y : Int) : Int :=
  if paschalOffset y = 29 then 28
  else if paschalOffset y = 28 ∧ 11 ≤ y % 19 then 27
  else paschalOffset y

section

variable {y : Int}

/-- The full moon in terms of quotients and remainders of numbers that are not negative. -/
theorem paschalOffset_of_nonneg (hy : 0 ≤ y) :
    paschalOffset y =
      (19 * (y % 19) + y / 100 - y / 100 / 4 - (y / 100 - (y / 100 + 8) / 25 + 1) / 3 + 15) %
        30 := by
  unfold paschalOffset
  simp only
  rw [Int.tmod_eq_emod_of_nonneg hy, Int.tdiv_eq_ediv_of_nonneg hy,
    Int.tdiv_eq_ediv_of_nonneg (by omega : 0 ≤ y / 100),
    Int.tdiv_eq_ediv_of_nonneg (by omega : 0 ≤ y / 100 + 8),
    Int.tdiv_eq_ediv_of_nonneg (by omega : 0 ≤ y / 100 - (y / 100 + 8) / 25 + 1),
    Int.tmod_eq_emod_of_nonneg (by omega)]

/-- The full moon is less than a month after March 21. -/
theorem paschalOffset_bounds (hy : 0 ≤ y) : 0 ≤ paschalOffset y ∧ paschalOffset y ≤ 29 := by
  rw [paschalOffset_of_nonneg hy]
  omega

/-- Days from the day after the full moon, uncorrected, to the next Sunday. -/
def sundayOffset (y : Int) : Int :=
  (32 + 2 * (y / 100 % 4) + 2 * (y % 100 / 4) - paschalOffset y - y % 100 % 4) % 7

/-- Weeks by which the Sunday after the uncorrected full moon is too late. -/
def weeksLate (y : Int) : Int := (y % 19 + 11 * paschalOffset y + 22 * sundayOffset y) / 451

/-- Easter is the Sunday after the uncorrected full moon, or the one before where this is late. -/
theorem easterNumber_of_nonneg (hy : 0 ≤ y) :
    easterNumber y = 114 + paschalOffset y + sundayOffset y - 7 * weeksLate y := by
  have hmoon := paschalOffset_bounds hy
  unfold easterNumber
  simp only
  rw [Int.tmod_eq_emod_of_nonneg hy, Int.tdiv_eq_ediv_of_nonneg hy, Int.tmod_eq_emod_of_nonneg hy,
    Int.tmod_eq_emod_of_nonneg (by omega : 0 ≤ y / 100),
    Int.tdiv_eq_ediv_of_nonneg (by omega : 0 ≤ y % 100),
    Int.tmod_eq_emod_of_nonneg (by omega : 0 ≤ y % 100), Int.tmod_eq_emod_of_nonneg (by omega),
    Int.tdiv_eq_ediv_of_nonneg (by omega)]
  unfold weeksLate sundayOffset
  omega

/-- The Sunday is a week late where the full moon is corrected and the Sunday is the seventh day
after the uncorrected one. -/
theorem weeksLate_eq (hy : 0 ≤ y) :
    weeksLate y = if sundayOffset y = 6 ∧ fullMoonOffset y ≠ paschalOffset y then 1 else 0 := by
  obtain ⟨hmoon, hmoon'⟩ := paschalOffset_bounds hy
  have hcycle : 0 ≤ y % 19 ∧ y % 19 ≤ 18 := by omega
  have hsunday : sundayOffset y = 6 ∨ (0 ≤ sundayOffset y ∧ sundayOffset y ≤ 5) := by
    unfold sundayOffset
    omega
  unfold weeksLate fullMoonOffset
  rcases hsunday with hlast | hearlier
  · rw [hlast]
    split <;> split <;> omega
  · rw [if_neg (by omega)]
    omega

/-- Easter falls in the week after the full moon, from March 22 to April 25. -/
theorem easterNumber_window (hy : 0 ≤ y) :
    0 ≤ fullMoonOffset y ∧ fullMoonOffset y ≤ 28 ∧ 114 + fullMoonOffset y ≤ easterNumber y ∧
      easterNumber y ≤ 120 + fullMoonOffset y := by
  obtain ⟨hmoon, hmoon'⟩ := paschalOffset_bounds hy
  have hsunday : 0 ≤ sundayOffset y ∧ sundayOffset y ≤ 6 := by
    unfold sundayOffset
    omega
  have hcorrected : (fullMoonOffset y = paschalOffset y ∧ paschalOffset y ≤ 28) ∨
      fullMoonOffset y = paschalOffset y - 1 ∧ 27 ≤ fullMoonOffset y := by
    unfold fullMoonOffset
    split
    · omega
    · split <;> omega
  rw [easterNumber_of_nonneg hy, weeksLate_eq hy]
  split <;> omega

/-- Years counted by centuries and by leap years of a century: the weekday of the full moon and the
days that `sundayOffset` adds cancel to a Sunday. -/
theorem day_easterNumber_emod (hy : 0 ≤ y) :
    (yearStart y + daysBeforeMonth (isLeapYear y) 3 + easterNumber y - 93) % 7 = 6 := by
  have hcenturies : y = 400 * (y / 400) + 100 * (y / 100 % 4) + 4 * (y % 100 / 4) + y % 100 % 4 ∧
      y / 100 = 4 * (y / 400) + y / 100 % 4 ∧
      y / 4 = 100 * (y / 400) + 25 * (y / 100 % 4) + y % 100 / 4 := by omega
  rw [yearStart_add_daysBeforeMarch, easterNumber_of_nonneg hy]
  unfold sundayOffset
  omega

/-- There is an Easter Sunday in every year from year 0 on, at its place of the spring. -/
theorem exists_easterSunday? (hy : 0 ≤ y) (hlast : y ≤ 262142) :
    ∃ easter, easterSunday? y = some easter ∧
      easter.day = yearStart y + daysBeforeMonth (isLeapYear y) 3 + easterNumber y - 93 := by
  have hwindow := easterNumber_window hy
  have hapril : daysBeforeMonth (isLeapYear y) 4 = daysBeforeMonth (isLeapYear y) 3 + 31 := rfl
  have hfirst : -262143 ≤ y := by omega
  have hparts : (((easterNumber y).tdiv 31).toNat = 3 ∧ easterNumber y ≤ 123 ∧
        (((easterNumber y).tmod 31 + 1).toNat : Int) = easterNumber y - 92) ∨
      ((easterNumber y).tdiv 31).toNat = 4 ∧ 124 ≤ easterNumber y ∧
        (((easterNumber y).tmod 31 + 1).toNat : Int) = easterNumber y - 123 := by
    rw [Int.tmod_eq_emod_of_nonneg (by omega), Int.tdiv_eq_ediv_of_nonneg (by omega)]
    omega
  unfold easterSunday?
  rcases hparts with ⟨hmonth, hmarch, hday⟩ | ⟨hmonth, hin, hday⟩
  · obtain ⟨easter, heaster, heasterday⟩ := Date.exists_ofCivil? 3
      ((easterNumber y).tmod 31 + 1).toNat hfirst hlast (by decide) (by omega)
      (by simp only [daysInMonth]; omega)
    refine ⟨easter, ?_, by omega⟩
    simp only [hmonth, heaster]
  · obtain ⟨easter, heaster, heasterday⟩ := Date.exists_ofCivil? 4
      ((easterNumber y).tmod 31 + 1).toNat hfirst hlast (by decide) (by omega)
      (by simp only [daysInMonth]; omega)
    refine ⟨easter, ?_, by omega⟩
    simp only [hmonth, heaster]

/-- The Friday before Easter is a holiday of its year. -/
theorem exists_goodFriday? (hy : 0 ≤ y) {easter : Date} (heaster : easterSunday? y = some easter)
    (heasterday : easter.day =
      yearStart y + daysBeforeMonth (isLeapYear y) 3 + easterNumber y - 93) :
    ∃ friday, goodFriday? y = some friday ∧ friday.day = easter.day - 2 ∧ isHoliday friday := by
  have hwindow := easterNumber_window hy
  have hstart : firstDay ≤ yearStart y := yearStart_le (by omega : -262143 ≤ y)
  have hend := easter.le_last
  have hfits : firstDay ≤ easter.day - 2 ∧ easter.day - 2 ≤ lastDay := by omega
  obtain ⟨friday, hfridayday⟩ : ∃ friday : Date, friday.day = easter.day - 2 :=
    ⟨⟨_, hfits.1, hfits.2⟩, rfl⟩
  have hgood : goodFriday? y = some friday := by
    rw [goodFriday?, heaster, Option.bind_some, Date.addDays?_eq_some_iff]
    omega
  have hyear : friday.year = y := by
    have hnext := yearStart_succ y
    have hmonths : (daysBeforeMonth (isLeapYear y) 3 : Int) ≤ 60 := by
      cases isLeapYear y <;> decide
    refine eq_yearOfDay (by omega) ?_
    split at hnext <;> omega
  refine ⟨friday, hgood, hfridayday, ?_⟩
  unfold isHoliday holidaysOf
  rw [hyear, hgood, List.contains_iff_mem, List.mem_filterMap]
  exact ⟨some friday, by simp, rfl⟩

end

/-! ### Easter and Good Friday -/

/-- In every year from year 0 on Easter is the first Sunday after the full moon of spring, and falls
from March 22 to April 25. The exchange is closed on the Friday before, from March 20 to
April 23. -/
theorem easter_follows_full_moon {y : Int} (hy : 0 ≤ y) (hlast : y ≤ 262142) :
    ∃ march21 moon easter friday : Date,
      Date.ofCivil? y 3 21 = some march21 ∧ march21.addDays? (fullMoonOffset y) = some moon ∧
      easterSunday? y = some easter ∧ easter.weekday = .sunday ∧
      easter.Within y (3, 22) (4, 25) ∧
      moon < easter ∧ (∀ d : Date, moon < d → d < easter → d.weekday ≠ .sunday) ∧
      goodFriday? y = some friday ∧ friday.weekday = .friday ∧
      friday.Within y (3, 20) (4, 23) ∧
      isHoliday friday ∧ exchangeWeekdays.isTradingDay friday = false := by
  have hfirst : -262143 ≤ y := by omega
  obtain ⟨hnear, hfar, hafter, hweek⟩ := easterNumber_window hy
  have hsunday := day_easterNumber_emod hy
  obtain ⟨march21, hmarch, hmarchday⟩ :=
    Date.exists_ofCivil? 3 21 hfirst hlast (by decide) (by decide) (by decide : 21 ≤ 31)
  obtain ⟨easter, heaster, heasterday⟩ := exists_easterSunday? hy hlast
  obtain ⟨friday, hgood, hfridayday, hholiday⟩ := exists_goodFriday? hy heaster heasterday
  have hfits : firstDay ≤ march21.day + fullMoonOffset y ∧
      march21.day + fullMoonOffset y ≤ lastDay := by
    have hstart := march21.first_le
    have hend := easter.le_last
    omega
  obtain ⟨moon, hmoonday⟩ : ∃ moon : Date, moon.day = march21.day + fullMoonOffset y :=
    ⟨⟨_, hfits.1, hfits.2⟩, rfl⟩
  have hsix : Weekday.sunday.index = 6 := rfl
  have hfour : Weekday.friday.index = 4 := rfl
  refine ⟨march21, moon, easter, friday, hmarch, Date.addDays?_eq_some_iff.2 hmoonday, heaster,
    Date.weekday_eq_iff.2 (by omega), ?_, show moon.day < easter.day by omega, ?_, hgood,
    Date.weekday_eq_iff.2 (by omega), ?_, hholiday, by simp [isTradingDay, hholiday]⟩
  · exact Date.within_spring hfirst hlast (by decide) (by decide) (by omega) (by omega)
  · -- The Sundays around Easter are a week away from it, and the full moon is less than that.
    intro d hd hd' hweekday
    have hd : moon.day < d.day := hd
    have hd' : d.day < easter.day := hd'
    have hindex := Date.weekday_eq_iff.1 hweekday
    omega
  · exact Date.within_spring hfirst hlast (by decide) (by decide) (by omega) (by omega)

/-- In 1954 the full moon is corrected to Saturday April 17, so Easter is the day after it and not
the Sunday a week later. -/
theorem easter_1954 :
    (0 ≤ (1954 : Int) ∧ (1954 : Int) ≤ 262142) ∧ paschalOffset 1954 = 28 ∧
    ∃ march21 moon easter friday : Date,
      Date.ofCivil? 1954 3 21 = some march21 ∧ march21.addDays? 27 = some moon ∧
      easterSunday? 1954 = some easter ∧ easter.weekday = .sunday ∧
      easter.Within 1954 (3, 22) (4, 25) ∧
      moon < easter ∧ (∀ d : Date, moon < d → d < easter → d.weekday ≠ .sunday) ∧
      goodFriday? 1954 = some friday ∧ friday.weekday = .friday ∧
      friday.Within 1954 (3, 20) (4, 23) ∧
      isHoliday friday ∧ exchangeWeekdays.isTradingDay friday = false ∧
      easter = Date.civil 1954 4 18 := by
  have hmoon : fullMoonOffset 1954 = 27 := by decide
  obtain ⟨march21, moon, easter, friday, hmarch, hmoonday, heaster, hrest⟩ :=
    easter_follows_full_moon (by decide : 0 ≤ (1954 : Int)) (by decide)
  rw [hmoon] at hmoonday
  have hdate : easter = Date.civil 1954 4 18 := by
    have hvalue : easterSunday? 1954 = some (Date.civil 1954 4 18) := by decide
    exact Option.some.inj (heaster.symm.trans hvalue)
  obtain ⟨hsunday, hwithin, hlater, hfirst, hgood, hfriday, hplace, hholiday, hclosed⟩ := hrest
  exact ⟨by decide, by decide, march21, moon, easter, friday, hmarch, hmoonday, heaster, hsunday,
    hwithin, hlater, hfirst, hgood, hfriday, hplace, hholiday, hclosed, hdate⟩

end Calendar

end MarketReplay
