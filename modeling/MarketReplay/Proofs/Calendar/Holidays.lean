import Mathlib.Data.List.Nodup
import MarketReplay.Proofs.Calendar.Easter
import MarketReplay.Proofs.Civil.DateRanges

/-!
# The holidays of a year

From year 0 on each rule has a window of its own in the year, in which it gives a date from Monday
to Friday (`HolidayRule.date?_spec`). So the rules of a year give different dates, none on a weekend
or in another year, and the weekdays on which the exchange is closed are exactly these dates: nine
or ten, one less where January 1 is a Saturday (`holidays_counted`).
-/

namespace MarketReplay

namespace Date

open Civil

/-- A month that starts in the calendar has each weekday in each of its first four weeks. -/
theorem exists_nthWeekday? {y : Int} {month n : Nat} (weekday : Weekday) (hfirst : -262143 ≤ y)
    (hlast : y ≤ 262142) (hmonth : month ≤ 12) (hn : 1 ≤ n)
    (hweeks : 7 * n ≤ daysInMonth (isLeapYear y) month) :
    ∃ d, nthWeekday? y month weekday n = some d ∧ d.weekday = weekday ∧
      yearStart y + daysBeforeMonth (isLeapYear y) month + 7 * (n - 1) ≤ d.day ∧
      d.day < yearStart y + daysBeforeMonth (isLeapYear y) month + 7 * n := by
  obtain ⟨start, hstart, hstartday⟩ := exists_ofCivil? month 1 hfirst hlast hmonth (Nat.le_refl 1)
    (by omega)
  have hoffset : (7 + weekday.index - start.weekday.index) % 7 < 7 := Nat.mod_lt _ (by decide)
  obtain ⟨d, hd, hday⟩ := exists_ofCivil? month
    ((n - 1) * 7 + (7 + weekday.index - start.weekday.index) % 7 + 1) hfirst hlast hmonth
    (Nat.succ_pos _) (by omega)
  have hnth : nthWeekday? y month weekday n = some d := by
    unfold nthWeekday?
    rw [hstart]
    exact hd
  exact ⟨d, hnth, weekday_eq_iff.2 (day_emod_of_nthWeekday? hnth), by omega, by omega⟩

/-- A year starts on January 1. -/
theorem day_of_newYear {y : Int} {d : Date} (h : ofCivil? y 1 1 = some d) :
    d.day = yearStart y := by
  have hcivil := (day_of_ofCivil? h).1
  have hbefore : daysBeforeMonth (isLeapYear y) 1 = 0 := rfl
  omega

/-- A year ends on December 31. -/
theorem day_of_newYearsEve {y : Int} {d : Date} (h : ofCivil? y 12 31 = some d) :
    d.day + 1 = yearStart (y + 1) := by
  have hcivil := (day_of_ofCivil? h).1
  have hnext := yearStart_succ y
  have hbefore : (daysBeforeMonth (isLeapYear y) 12 : Int) + 31 =
      if isLeapYear y then 366 else 365 := by
    cases isLeapYear y <;> rfl
  omega

/-- The dates of a year are those from January 1 through December 31. -/
theorem year_eq_iff {y : Int} {first last d : Date} (hfirst : ofCivil? y 1 1 = some first)
    (hlast : ofCivil? y 12 31 = some last) :
    d.year = y ↔ first ≤ d ∧ d ≤ last := by
  have hfirstday := day_of_newYear hfirst
  have hlastday := day_of_newYearsEve hlast
  constructor
  · rintro rfl
    have hle : yearStart d.year ≤ d.day := (yearStart_yearOfDay d.day).1
    have hlt : d.day < yearStart (d.year + 1) := (yearStart_yearOfDay d.day).2
    exact ⟨show first.day ≤ d.day by omega, show d.day ≤ last.day by omega⟩
  · rintro ⟨hle, hle'⟩
    have hle : first.day ≤ d.day := hle
    have hle' : d.day ≤ last.day := hle'
    exact eq_yearOfDay (by omega) (by omega)

/-- The weekend is Saturday and Sunday. -/
theorem isWeekend_weekday (d : Date) : d.weekday.isWeekend = decide (5 ≤ d.day % 7) := by
  have hindex := d.index_weekday
  rw [← hindex]
  cases d.weekday <;> rfl

end Date

namespace Calendar

open Civil

/-- An observed date is no weekend, unless the calendar ends there. -/
theorem isWeekend_observed {d : Date} (hfirst : firstDay < d.day) (hlast : d.day < lastDay) :
    (observed d).weekday.isWeekend = false := by
  have hfriday : Weekday.saturday.index = 5 := rfl
  have hmonday : Weekday.sunday.index = 6 := rfl
  rw [Date.isWeekend_weekday, decide_eq_false_iff_not]
  unfold observed
  split
  · rename_i hsaturday
    have hday := Date.weekday_eq_iff.1 hsaturday
    have hprevious : d.previous? = some ⟨d.day - 1, by omega, by omega⟩ :=
      Date.addDays?_eq_some_iff.2 rfl
    rw [hprevious, Option.getD_some]
    simp only
    omega
  · rename_i hsunday
    have hday := Date.weekday_eq_iff.1 hsunday
    have hnext : d.next? = some ⟨d.day + 1, by omega, by omega⟩ := Date.next?_eq_some_iff.2 rfl
    rw [hnext, Option.getD_some]
    simp only
    omega
  · rename_i hsaturday hsunday
    have hsaturday := mt Date.weekday_eq_iff.2 hsaturday
    have hsunday := mt Date.weekday_eq_iff.2 hsunday
    omega

/-- The rules by which the exchange is closed, in the order in which they are looked at. -/
inductive HolidayRule where
  | newYear | kingDay | presidentsDay | goodFriday | memorialDay | independenceDay | laborDay
  | thanksgiving | christmas | juneteenth
  deriving DecidableEq

namespace HolidayRule

/-- All rules. -/
def all : List HolidayRule :=
  [newYear, kingDay, presidentsDay, goodFriday, memorialDay, independenceDay, laborDay,
    thanksgiving, christmas, juneteenth]

/-- The date of a rule in a year. -/
def date? (year : Int) : HolidayRule → Option Date
  | newYear => newYearsDay? year
  | kingDay => Date.nthWeekday? year 1 .monday 3
  | presidentsDay => Date.nthWeekday? year 2 .monday 3
  | goodFriday => goodFriday? year
  | memorialDay => lastMondayOfMay? year
  | independenceDay => fixedHoliday? year 7 4
  | laborDay => Date.nthWeekday? year 9 .monday 1
  | thanksgiving => Date.nthWeekday? year 11 .thursday 4
  | christmas => fixedHoliday? year 12 25
  | juneteenth => if juneteenthFrom ≤ year then fixedHoliday? year 6 19 else none

/-- The holidays of a year are the dates of the rules. -/
theorem holidaysOf_eq (year : Int) : holidaysOf year = all.filterMap (date? year) := by
  have hmap : all.filterMap (date? year) = (all.map (date? year)).filterMap id := by
    rw [List.filterMap_map, Function.id_comp]
  rw [hmap]
  simp only [holidaysOf, all, List.map_cons, List.map_nil, date?]

/-- Days from January 1 before which a rule has no date. -/
def earliest : HolidayRule → Int
  | newYear => 0
  | kingDay => 14
  | presidentsDay => 45
  | goodFriday => 78
  | memorialDay => 144
  | independenceDay => 183
  | laborDay => 243
  | thanksgiving => 325
  | christmas => 357
  | juneteenth => 168

/-- Days from January 1 after which a rule has no date. -/
def latest : HolidayRule → Int
  | newYear => 1
  | kingDay => 20
  | presidentsDay => 51
  | goodFriday => 113
  | memorialDay => 151
  | independenceDay => 186
  | laborDay => 250
  | thanksgiving => 332
  | christmas => 360
  | juneteenth => 171

/-- The windows of two rules do not meet. -/
theorem apart (r r' : HolidayRule) : r = r' ∨ r.latest < r'.earliest ∨ r'.latest < r.earliest := by
  cases r <;> cases r' <;> simp [earliest, latest]

/-- Whether a date stands in the window of a rule of a year and is no weekend. -/
structure Gives (year : Int) (r : HolidayRule) (d : Date) : Prop where
  earliest_le : yearStart year + r.earliest ≤ d.day
  le_latest : d.day ≤ yearStart year + r.latest
  isWeekend_eq : d.weekday.isWeekend = false

/-- Whether a rule has a date in a year that starts on a weekday: New Year is not kept on a
Saturday, Juneteenth not before its first year. -/
def keptIn (year : Int) (start : Weekday) : HolidayRule → Bool
  | newYear => start != .saturday
  | juneteenth => juneteenthFrom ≤ year
  | _ => true

section

variable {y : Int}

/-- A rule for a given weekday in a given week of a month. -/
theorem exists_nthWeekday? {month n : Nat} {weekday : Weekday} {r : HolidayRule} (hy : 0 ≤ y)
    (hlast : y ≤ 262142) (hmonth : month ≤ 12) (hn : 1 ≤ n)
    (hweeks : 7 * n ≤ daysInMonth (isLeapYear y) month)
    (hearliest : r.earliest ≤ daysBeforeMonth (isLeapYear y) month + 7 * (n - 1))
    (hlatest : (daysBeforeMonth (isLeapYear y) month : Int) + 7 * n ≤ r.latest + 1)
    (hweekday : weekday.isWeekend = false) :
    ∃ d, Date.nthWeekday? y month weekday n = some d ∧ Gives y r d := by
  obtain ⟨d, hd, hsame, hle, hlt⟩ :=
    Date.exists_nthWeekday? weekday (by omega) hlast hmonth hn hweeks
  exact ⟨d, hd, by omega, by omega, hsame ▸ hweekday⟩

/-- A rule for a fixed date of the year, as observed. -/
theorem exists_fixedHoliday? {month dayOfMonth : Nat} {r : HolidayRule} (hy : 0 ≤ y)
    (hlast : y ≤ 262142) (hmonth : month ≤ 12) (hday : 1 ≤ dayOfMonth)
    (hdays : dayOfMonth ≤ daysInMonth (isLeapYear y) month)
    (hearliest : r.earliest + 2 ≤ daysBeforeMonth (isLeapYear y) month + dayOfMonth)
    (hlatest : (daysBeforeMonth (isLeapYear y) month : Int) + dayOfMonth ≤ r.latest)
    (hpositive : 0 ≤ r.earliest) (hyear : r.latest ≤ 363) :
    ∃ d, fixedHoliday? y month dayOfMonth = some d ∧ Gives y r d := by
  obtain ⟨fixed, hfixed, hfixedday⟩ :=
    Date.exists_ofCivil? month dayOfMonth (by omega) hlast hmonth hday hdays
  have hheld : fixedHoliday? y month dayOfMonth = some (observed fixed) := by
    rw [fixedHoliday?, hfixed, Option.map_some]
  have hnear := day_observed fixed
  have hstart : firstDay ≤ yearStart y := yearStart_le (by omega : -262143 ≤ y)
  have hend : yearStart (y + 1) ≤ lastDay + 1 := yearStart_le (Int.add_le_add_right hlast 1)
  have hnext := yearStart_succ y
  have hlength : (365 : Int) ≤ if isLeapYear y then 366 else 365 := by split <;> omega
  exact ⟨_, hheld, by omega, by omega, isWeekend_observed (by omega) (by omega)⟩

/-- Memorial Day is the last Monday of May. -/
theorem exists_memorialDay (hy : 0 ≤ y) (hlast : y ≤ 262142) :
    ∃ d, lastMondayOfMay? y = some d ∧ Gives y memorialDay d := by
  have hfirst : -262143 ≤ y := by omega
  obtain ⟨last, hlastMay, hlastday⟩ :=
    Date.exists_ofCivil? 5 31 hfirst hlast (by decide) (by decide) (by decide : 31 ≤ 31)
  have hbefore : (daysBeforeMonth (isLeapYear y) 5 : Int) = if isLeapYear y then 121 else 120 := by
    cases isLeapYear y <;> rfl
  have hstart : firstDay ≤ yearStart y := yearStart_le hfirst
  have hend := last.le_last
  have hindex := last.index_weekday
  have hplace : yearStart y + 144 ≤ last.day - last.weekday.index ∧
      last.day - last.weekday.index ≤ yearStart y + 151 := by
    split at hbefore <;> omega
  obtain ⟨d, hday⟩ : ∃ d : Date, d.day = last.day - last.weekday.index :=
    ⟨⟨_, by omega, by omega⟩, rfl⟩
  refine ⟨d, ?_, hday ▸ hplace.1, hday ▸ hplace.2, ?_⟩
  · rw [lastMondayOfMay?, hlastMay]
    exact Date.addDays?_eq_some_iff.2 (by omega)
  · rw [Date.isWeekend_weekday, decide_eq_false_iff_not]
    omega

/-- Good Friday is in March or April. -/
theorem exists_goodFriday (hy : 0 ≤ y) (hlast : y ≤ 262142) :
    ∃ d, goodFriday? y = some d ∧ Gives y goodFriday d := by
  obtain ⟨hnear, hfar, hafter, hweek⟩ := easterNumber_window hy
  have hsunday := day_easterNumber_emod hy
  obtain ⟨easter, heaster, heasterday⟩ := exists_easterSunday? hy hlast
  obtain ⟨friday, hfriday, hfridayday, -⟩ := exists_goodFriday? hy heaster heasterday
  have hbefore : (daysBeforeMonth (isLeapYear y) 3 : Int) = if isLeapYear y then 60 else 59 := by
    cases isLeapYear y <;> rfl
  refine ⟨friday, hfriday, ?_, ?_, ?_⟩
  · simp only [earliest]
    split at hbefore <;> omega
  · simp only [latest]
    split at hbefore <;> omega
  · rw [Date.isWeekend_weekday, decide_eq_false_iff_not]
    omega

/-- New Year's Day is January 1, after a Sunday January 2, and is not kept on a Saturday. -/
theorem newYear_spec (hlast : y ≤ 262142) {start : Date}
    (hstart : Date.ofCivil? y 1 1 = some start) :
    if start.weekday = .saturday then newYearsDay? y = none
    else ∃ d, newYearsDay? y = some d ∧ Gives y newYear d := by
  have hday : start.day = yearStart y := Date.day_of_newYear hstart
  have hfive : Weekday.saturday.index = 5 := rfl
  have hsix : Weekday.sunday.index = 6 := rfl
  unfold newYearsDay?
  rw [hstart]
  simp only
  by_cases hsaturday : start.weekday = .saturday
  · rw [if_pos hsaturday, hsaturday]
  rw [if_neg hsaturday]
  have hweek := mt Date.weekday_eq_iff.2 hsaturday
  by_cases hsunday : start.weekday = .sunday
  · have hindex := Date.weekday_eq_iff.1 hsunday
    have hend : yearStart y < lastDay := by
      have hle : yearStart y ≤ yearStart 262142 := yearStart_le hlast
      have hvalue : yearStart 262142 < lastDay := by decide
      omega
    have hfirst := start.first_le
    have hnext : start.next? = some ⟨start.day + 1, by omega, by omega⟩ :=
      Date.next?_eq_some_iff.2 rfl
    rw [hsunday]
    refine ⟨_, hnext, ?_, ?_, ?_⟩
    · simp only [earliest]
      omega
    · simp only [latest]
      omega
    · rw [Date.isWeekend_weekday, decide_eq_false_iff_not]
      simp only
      omega
  · have hother := mt Date.weekday_eq_iff.2 hsunday
    have hkept : Gives y newYear start := by
      refine ⟨?_, ?_, ?_⟩
      · simp only [earliest]
        omega
      · simp only [latest]
        omega
      · rw [Date.isWeekend_weekday, decide_eq_false_iff_not]
        omega
    refine ⟨start, ?_, hkept⟩
    split
    · contradiction
    · contradiction
    · rfl

/-- A rule that is kept in a year gives a date in its window, and the others give none. -/
theorem date?_spec (hy : 0 ≤ y) (hlast : y ≤ 262142) {start : Date}
    (hstart : Date.ofCivil? y 1 1 = some start) (r : HolidayRule) :
    if r.keptIn y start.weekday then ∃ d, r.date? y = some d ∧ Gives y r d
    else r.date? y = none := by
  cases r with
  | newYear =>
      have hspec := newYear_spec hlast hstart
      by_cases hsaturday : start.weekday = .saturday
      · rw [if_pos hsaturday] at hspec
        simpa [keptIn, date?, hsaturday] using hspec
      · rw [if_neg hsaturday] at hspec
        simpa [keptIn, date?, hsaturday] using hspec
  | kingDay =>
      refine exists_nthWeekday? hy hlast (by decide) (by decide) ?_ ?_ ?_ rfl <;>
        cases isLeapYear y <;> decide
  | presidentsDay =>
      refine exists_nthWeekday? hy hlast (by decide) (by decide) ?_ ?_ ?_ rfl <;>
        cases isLeapYear y <;> decide
  | goodFriday => exact exists_goodFriday hy hlast
  | memorialDay => exact exists_memorialDay hy hlast
  | independenceDay =>
      refine exists_fixedHoliday? hy hlast (by decide) (by decide) ?_ ?_ ?_ ?_ ?_ <;>
        cases isLeapYear y <;> decide
  | laborDay =>
      refine exists_nthWeekday? hy hlast (by decide) (by decide) ?_ ?_ ?_ rfl <;>
        cases isLeapYear y <;> decide
  | thanksgiving =>
      refine exists_nthWeekday? hy hlast (by decide) (by decide) ?_ ?_ ?_ rfl <;>
        cases isLeapYear y <;> decide
  | christmas =>
      refine exists_fixedHoliday? hy hlast (by decide) (by decide) ?_ ?_ ?_ ?_ ?_ <;>
        cases isLeapYear y <;> decide
  | juneteenth =>
      by_cases hfrom : juneteenthFrom ≤ y
      · have hheld : ∃ d, fixedHoliday? y 6 19 = some d ∧ Gives y juneteenth d := by
          refine exists_fixedHoliday? hy hlast (by decide) (by decide) ?_ ?_ ?_ ?_ ?_ <;>
            cases isLeapYear y <;> decide
        simpa [keptIn, date?, hfrom] using hheld
      · simp [keptIn, date?, hfrom]

/-- A rule that gives a date gives it in its window. -/
theorem gives_of_date? (hy : 0 ≤ y) (hlast : y ≤ 262142) {start : Date}
    (hstart : Date.ofCivil? y 1 1 = some start) {r : HolidayRule} {d : Date}
    (h : r.date? y = some d) : Gives y r d := by
  have hspec := date?_spec hy hlast hstart r
  split at hspec
  · obtain ⟨d', hd', hgives⟩ := hspec
    obtain rfl := Option.some.inj (h.symm.trans hd')
    exact hgives
  · cases h.symm.trans hspec

/-- A rule gives a date where it is kept. -/
theorem isSome_date? (hy : 0 ≤ y) (hlast : y ≤ 262142) {start : Date}
    (hstart : Date.ofCivil? y 1 1 = some start) (r : HolidayRule) :
    (r.date? y).isSome = r.keptIn y start.weekday := by
  have hspec := date?_spec hy hlast hstart r
  split at hspec
  · rename_i hkept
    obtain ⟨d, hd, -⟩ := hspec
    rw [hd, hkept, Option.isSome_some]
  · rename_i hkept
    rw [hspec, Option.isSome_none, eq_comm, ← Bool.not_eq_true]
    exact hkept

end

end HolidayRule

open HolidayRule

section

variable {y : Int} {first : Date}

/-- The holidays of a year lie in it, the last of them before its last days, and are no weekend. -/
theorem mem_holidaysOf (hy : 0 ≤ y) (hlast : y ≤ 262142)
    (hfirst : Date.ofCivil? y 1 1 = some first) {d : Date} (hd : d ∈ holidaysOf y) :
    d.year = y ∧ d.weekday.isWeekend = false ∧ d.day ≤ yearStart y + 360 := by
  rw [holidaysOf_eq, List.mem_filterMap] at hd
  obtain ⟨r, -, hr⟩ := hd
  obtain ⟨hearliest, hlatest, hweekend⟩ := gives_of_date? hy hlast hfirst hr
  have hwindow : 0 ≤ r.earliest ∧ r.latest ≤ 360 := by cases r <;> decide
  have hnext := yearStart_succ y
  have hend : yearStart y + 365 ≤ yearStart (y + 1) := by split at hnext <;> omega
  exact ⟨eq_yearOfDay (by omega) (by omega), hweekend, by omega⟩

/-- No two rules give the same date. -/
theorem nodup_holidaysOf (hy : 0 ≤ y) (hlast : y ≤ 262142)
    (hfirst : Date.ofCivil? y 1 1 = some first) : (holidaysOf y).Nodup := by
  rw [holidaysOf_eq]
  refine List.Nodup.filterMap ?_ (by decide)
  intro r r' d hd hd'
  have hgives := gives_of_date? hy hlast hfirst (Option.mem_def.1 hd)
  have hgives' := gives_of_date? hy hlast hfirst (Option.mem_def.1 hd')
  have hle := hgives.earliest_le
  have hle' := hgives'.earliest_le
  have hge := hgives.le_latest
  have hge' := hgives'.le_latest
  rcases apart r r' with heq | hlt | hlt
  · exact heq
  · omega
  · omega

/-- There are nine holidays in a year, ten with Juneteenth, and one less where New Year is not
kept. -/
theorem length_holidaysOf (hy : 0 ≤ y) (hlast : y ≤ 262142)
    (hfirst : Date.ofCivil? y 1 1 = some first) :
    ((holidaysOf y).length : Int) =
      9 + (if juneteenthFrom ≤ y then 1 else 0) -
        (if first.weekday = .saturday then 1 else 0) := by
  have hcount : (holidaysOf y).length = all.countP fun r => r.keptIn y first.weekday := by
    rw [holidaysOf_eq, List.length_filterMap_eq_countP]
    exact List.countP_congr fun r _ => by rw [isSome_date? hy hlast hfirst]
  rw [hcount]
  by_cases hfrom : juneteenthFrom ≤ y <;> by_cases hsaturday : first.weekday = .saturday <;>
    simp [all, keptIn, hfrom, hsaturday]

/-- The weekdays of a year on which the exchange is closed are its holidays. -/
theorem closedWeekdays_perm (hy : 0 ≤ y) (hle : y ≤ 262142)
    (hfirst : Date.ofCivil? y 1 1 = some first) {last : Date}
    (hlast : Date.ofCivil? y 12 31 = some last) :
    ((first.datesThrough last).filter fun d =>
      !d.weekday.isWeekend && !exchangeWeekdays.isTradingDay d).Perm (holidaysOf y) := by
  refine (List.perm_ext_iff_of_nodup ((Date.nodup_datesThrough first last).filter _)
    (nodup_holidaysOf hy hle hfirst)).2 fun d => ?_
  rw [List.mem_filter, Date.mem_datesThrough, ← Date.year_eq_iff hfirst hlast]
  constructor
  · rintro ⟨rfl, hclosed⟩
    rw [Bool.and_eq_true, Bool.not_eq_true'] at hclosed
    obtain ⟨hweekend, hclosed⟩ := hclosed
    simpa [isTradingDay, isHoliday, hweekend] using hclosed
  · intro hd
    obtain ⟨rfl, hweekend, -⟩ := mem_holidaysOf hy hle hfirst hd
    simp [isTradingDay, isHoliday, hweekend, hd]

/-- In every year from year 0 on the holidays are no weekend, and the weekdays on which the exchange
is closed are nine, with Juneteenth from 2022 on ten, and one less where January 1 is a Saturday. No
two rules meet, none gives a date of another year, and the last day of the year is closed on a
weekend only. -/
theorem holidays_counted {y : Int} (hy : 0 ≤ y) (hlast : y ≤ 262142) :
    ∃ first last : Date, Date.ofCivil? y 1 1 = some first ∧ Date.ofCivil? y 12 31 = some last ∧
      (∀ d, d ∈ first.datesThrough last ↔ d.year = y) ∧
      (∀ d : Date, d.year = y → isHoliday d → d.weekday.isWeekend = false) ∧
      (∀ d ∈ holidaysOf y, d.year = y) ∧ (holidaysOf y).Nodup ∧
      ((first.datesThrough last).countP
          (fun d => !d.weekday.isWeekend && !exchangeWeekdays.isTradingDay d) : Int) =
        9 + (if 2022 ≤ y then 1 else 0) - (if first.weekday = .saturday then 1 else 0) ∧
      (exchangeWeekdays.isTradingDay last = false ↔
        last.weekday = .saturday ∨ last.weekday = .sunday) := by
  obtain ⟨first, hfirst, -⟩ := Date.exists_ofCivil? 1 1 (by omega) hlast (by decide)
    (Nat.le_refl 1) (by decide : 1 ≤ 31)
  obtain ⟨eve, heve, -⟩ := Date.exists_ofCivil? 12 31 (by omega) hlast (by decide)
    (by decide) (by decide : 31 ≤ 31)
  refine ⟨first, eve, hfirst, heve, ?_, ?_, ?_, nodup_holidaysOf hy hlast hfirst, ?_, ?_⟩
  · intro d
    rw [Date.mem_datesThrough, Date.year_eq_iff hfirst heve]
  · rintro d rfl hholiday
    exact (mem_holidaysOf hy hlast hfirst (List.contains_iff_mem.1 hholiday)).2.1
  · exact fun d hd => (mem_holidaysOf hy hlast hfirst hd).1
  · rw [List.countP_eq_length_filter, (closedWeekdays_perm hy hlast hfirst heve).length_eq]
    exact length_holidaysOf hy hlast hfirst
  · have hopen : isHoliday eve = false := by
      rw [← Bool.not_eq_true, isHoliday, List.contains_iff_mem, Date.year_of_ofCivil? heve]
      intro hmem
      have hbefore := (mem_holidaysOf hy hlast hfirst hmem).2.2
      have hend := Date.day_of_newYearsEve heve
      have hnext := yearStart_succ y
      split at hnext <;> omega
    cases hweekday : eve.weekday <;> simp [isTradingDay, hopen, hweekday, Weekday.isWeekend]

/-- The first year with Juneteenth starts on a Saturday, so it has nine holidays. -/
theorem holidays_2022 :
    (0 ≤ (2022 : Int) ∧ (2022 : Int) ≤ 262142) ∧
    ∃ first last : Date,
      Date.ofCivil? 2022 1 1 = some first ∧ Date.ofCivil? 2022 12 31 = some last ∧
      (∀ d, d ∈ first.datesThrough last ↔ d.year = 2022) ∧
      (∀ d : Date, d.year = 2022 → isHoliday d → d.weekday.isWeekend = false) ∧
      (∀ d ∈ holidaysOf 2022, d.year = 2022) ∧ (holidaysOf 2022).Nodup ∧
      ((first.datesThrough last).countP
        (fun d => !d.weekday.isWeekend && !exchangeWeekdays.isTradingDay d) : Int) = 9 ∧
      first.weekday = .saturday ∧ last.weekday = .saturday ∧
      exchangeWeekdays.isTradingDay last = false := by
  obtain ⟨first, last, hfirst, hlast, hyear, hweekdays, hown, hnodup, hcount, hclosed⟩ :=
    holidays_counted (y := 2022) (by decide) (by decide)
  have hsaturday : first.weekday = .saturday := by
    obtain rfl := Option.some.inj (hfirst.symm.trans (by decide : _ = some (Date.civil 2022 1 1)))
    decide
  have heve : last.weekday = .saturday := by
    obtain rfl := Option.some.inj (hlast.symm.trans (by decide : _ = some (Date.civil 2022 12 31)))
    decide
  rw [hsaturday] at hcount
  exact ⟨by decide, first, last, hfirst, hlast, hyear, hweekdays, hown, hnodup, hcount, hsaturday,
    heve, hclosed.2 (.inl heve)⟩

end

end Calendar

end MarketReplay
