import MarketReplay.Calendar
import MarketReplay.Proofs.Civil.Moments

/-!
# Sessions and closed runs

Of any seven dates in a row one is a trading day (`exists_isTradingDay_within_week`): a Tuesday,
Wednesday or Friday is closed only by one of five rules that give a date each in a year, and these
dates are too far apart to close all three of a week. So the search for the next trading day, which
looks at ten dates, finds the first one there is (`nextTradingDay_of_lt`).
-/

namespace MarketReplay

namespace Civil

/-- A later year starts at least 365 days later. -/
theorem yearStart_add_le {y y' : Int} (h : y < y') : yearStart y + 365 ≤ yearStart y' := by
  unfold yearStart
  omega

end Civil

namespace Date

open Civil

/-- A date of a year, month and day of month, as a day number. -/
theorem day_of_ofCivil? {year : Int} {month dayOfMonth : Nat} {d : Date}
    (h : ofCivil? year month dayOfMonth = some d) :
    d.day = yearStart year + daysBeforeMonth (isLeapYear year) month + dayOfMonth - 1 ∧
      1 ≤ dayOfMonth ∧ dayOfMonth ≤ daysInMonth (isLeapYear year) month := by
  unfold ofCivil? at h
  simp only at h
  split at h
  · rename_i hvalid
    simp only [Bool.and_eq_true, decide_eq_true_eq] at hvalid
    exact ⟨ofDay?_eq_some_iff.1 h, hvalid.1.2, hvalid.2⟩
  · cases h

/-- The place of a weekday in the week is that of its date. -/
theorem index_weekday (d : Date) : (d.weekday.index : Int) = d.day % 7 := by
  have hcases : d.day % 7 = 0 ∨ d.day % 7 = 1 ∨ d.day % 7 = 2 ∨ d.day % 7 = 3 ∨ d.day % 7 = 4 ∨
      d.day % 7 = 5 ∨ d.day % 7 = 6 := by omega
  unfold weekday
  rcases hcases with h | h | h | h | h | h | h <;> rw [h] <;> rfl

/-- The `n`-th given weekday of a month falls on that weekday. -/
theorem day_emod_of_nthWeekday? {year : Int} {month n : Nat} {weekday : Weekday} {d : Date}
    (h : nthWeekday? year month weekday n = some d) : d.day % 7 = weekday.index := by
  unfold nthWeekday? at h
  split at h
  · cases h
  · rename_i start hstart
    obtain ⟨hfirst, -⟩ := day_of_ofCivil? hstart
    obtain ⟨hday, -⟩ := day_of_ofCivil? h
    have hindex := start.index_weekday
    have hlt : weekday.index < 7 := by cases weekday <;> decide
    omega

end Date

namespace Calendar

open Civil

/-! ### Where holidays fall -/

/-- A remainder toward zero is smaller than the divisor on both sides. -/
theorem tmod_bounds (a : Int) {b : Int} (hb : 0 < b) : -b < a.tmod b ∧ a.tmod b < b :=
  ⟨Int.lt_tmod_of_pos a hb, Int.tmod_lt_of_pos a hb⟩

/-- Easter falls from February to May, in the years before year 0 too. -/
theorem easterNumber_bounds (y : Int) : 62 ≤ easterNumber y ∧ easterNumber y < 186 := by
  let a := y.tmod 19
  let h := paschalOffset y
  let l := (32 + 2 * ((y.tdiv 100).tmod 4) + 2 * ((y.tmod 100).tdiv 4) - h -
    (y.tmod 100).tmod 4).tmod 7
  let m := (a + 11 * h + 22 * l).tdiv 451
  have ha : -19 < a ∧ a < 19 := tmod_bounds _ (by decide)
  have hh : -30 < h ∧ h < 30 := tmod_bounds _ (by decide)
  have hl : -7 < l ∧ l < 7 := tmod_bounds _ (by decide)
  have hm := Int.mul_tdiv_add_tmod (a + 11 * h + 22 * l) 451
  have hrest := tmod_bounds (a + 11 * h + 22 * l) (b := 451) (by decide)
  show 62 ≤ h + l - 7 * m + 114 ∧ h + l - 7 * m + 114 < 186
  omega

/-- The rules that can close a Tuesday, Wednesday or Friday; the others keep to a Monday or a
Thursday. -/
inductive MidweekRule where
  | newYear | goodFriday | juneteenth | independence | christmas

namespace MidweekRule

/-- The date of a rule in a year. -/
def date? (year : Int) : MidweekRule → Option Date
  | newYear => newYearsDay? year
  | goodFriday => goodFriday? year
  | juneteenth => fixedHoliday? year 6 19
  | independence => fixedHoliday? year 7 4
  | christmas => fixedHoliday? year 12 25

/-- Days from January 1 before which a rule has no date. -/
def earliest : MidweekRule → Int
  | newYear => 0
  | goodFriday => 29
  | juneteenth => 168
  | independence => 183
  | christmas => 357

/-- Days from January 1 after which a rule has no date. -/
def latest : MidweekRule → Int
  | newYear => 1
  | goodFriday => 149
  | juneteenth => 171
  | independence => 186
  | christmas => 360

/-- Two rules have no dates in one week of a year. -/
theorem apart (r r' : MidweekRule) :
    r = r' ∨ r.latest + 6 < r'.earliest ∨ r'.latest + 6 < r.earliest := by
  cases r <;> cases r' <;> simp [earliest, latest]

end MidweekRule

/-- An observed date is at most a day away from the fixed one. -/
theorem day_observed (d : Date) : d.day - 1 ≤ (observed d).day ∧ (observed d).day ≤ d.day + 1 := by
  unfold observed
  split
  · cases hprevious : d.previous? with
    | none => simp only [Option.getD_none]; omega
    | some d' =>
        have hday := Date.addDays?_eq_some_iff.1 hprevious
        simp only [Option.getD_some]
        omega
  · cases hnext : d.next? with
    | none => simp only [Option.getD_none]; omega
    | some d' =>
        have hday := Date.next?_eq_some_iff.1 hnext
        simp only [Option.getD_some]
        omega
  · omega

/-- A fixed holiday is at most a day away from its date of the year. -/
theorem day_fixedHoliday? {year : Int} {month dayOfMonth : Nat} {d : Date}
    (h : fixedHoliday? year month dayOfMonth = some d) :
    let fixed := yearStart year + daysBeforeMonth (isLeapYear year) month + dayOfMonth - 1
    fixed - 1 ≤ d.day ∧ d.day ≤ fixed + 1 := by
  intro fixed
  obtain ⟨start, hstart, rfl⟩ := Option.map_eq_some_iff.1 h
  have hday := (Date.day_of_ofCivil? hstart).1
  have hobserved := day_observed start
  omega

/-- New Year's Day is kept on January 1 or 2. -/
theorem day_newYearsDay? {year : Int} {d : Date} (h : newYearsDay? year = some d) :
    yearStart year ≤ d.day ∧ d.day ≤ yearStart year + 1 := by
  unfold newYearsDay? at h
  split at h
  · cases h
  · rename_i start hstart
    have hday : start.day = yearStart year := by
      have hcivil := (Date.day_of_ofCivil? hstart).1
      have hbefore : daysBeforeMonth (isLeapYear year) 1 = 0 := rfl
      omega
    split at h
    · cases h
    · have hnext := Date.next?_eq_some_iff.1 h
      omega
    · obtain rfl := Option.some.inj h
      omega

/-- Good Friday falls from the end of January to the end of May. -/
theorem day_goodFriday? {year : Int} {d : Date} (h : goodFriday? year = some d) :
    yearStart year + 29 ≤ d.day ∧ d.day ≤ yearStart year + 149 := by
  obtain ⟨easter, heaster, hfriday⟩ := Option.bind_eq_some_iff.1 h
  have hfriday := Date.addDays?_eq_some_iff.1 hfriday
  obtain ⟨hday, hfirst, hlast⟩ := Date.day_of_ofCivil? heaster
  have hbounds := easterNumber_bounds year
  have hmonth : ((easterNumber year).tdiv 31).toNat = 2 ∨ ((easterNumber year).tdiv 31).toNat = 3 ∨
      ((easterNumber year).tdiv 31).toNat = 4 ∨ ((easterNumber year).tdiv 31).toNat = 5 := by
    rw [Int.tdiv_eq_ediv_of_nonneg (by omega)]
    omega
  cases hleap : isLeapYear year <;> rw [hleap] at hday hlast <;>
    rcases hmonth with hm | hm | hm | hm <;> rw [hm] at hday hlast <;>
    simp only [daysBeforeMonth, daysInMonth] at hday hlast <;> grind

/-- The date of a rule lies between the rule's bounds. -/
theorem MidweekRule.day_date? {r : MidweekRule} {year : Int} {d : Date}
    (h : r.date? year = some d) :
    yearStart year + r.earliest ≤ d.day ∧ d.day ≤ yearStart year + r.latest := by
  have hmonths : ∀ leap, daysBeforeMonth leap 6 = (if leap then 152 else 151) ∧
      daysBeforeMonth leap 7 = (if leap then 182 else 181) ∧
      daysBeforeMonth leap 12 = (if leap then 335 else 334) := by decide
  obtain ⟨hjune, hjuly, hdecember⟩ := hmonths (isLeapYear year)
  cases r with
  | newYear =>
      have hday := day_newYearsDay? h
      simp only [earliest, latest]
      omega
  | goodFriday => exact day_goodFriday? h
  | juneteenth =>
      have hday := day_fixedHoliday? h
      simp only [hjune, earliest, latest] at hday ⊢
      split at hday <;> omega
  | independence =>
      have hday := day_fixedHoliday? h
      simp only [hjuly, earliest, latest] at hday ⊢
      split at hday <;> omega
  | christmas =>
      have hday := day_fixedHoliday? h
      simp only [hdecember, earliest, latest] at hday ⊢
      split at hday <;> omega

/-- A holiday on a Tuesday, Wednesday or Friday is that of a rule that can fall there. -/
theorem exists_midweekRule {d : Date} (h : isHoliday d)
    (hmid : d.day % 7 = 1 ∨ d.day % 7 = 2 ∨ d.day % 7 = 4) :
    ∃ r : MidweekRule, r.date? d.year = some d := by
  -- The other rules give Mondays and a Thursday.
  have hmonday : ∀ month n, Date.nthWeekday? d.year month .monday n ≠ some d := by
    intro month n heq
    have hday : d.day % 7 = 0 := Date.day_emod_of_nthWeekday? heq
    omega
  have hthursday : ∀ month n, Date.nthWeekday? d.year month .thursday n ≠ some d := by
    intro month n heq
    have hday : d.day % 7 = 3 := Date.day_emod_of_nthWeekday? heq
    omega
  have hmay : lastMondayOfMay? d.year ≠ some d := by
    intro heq
    unfold lastMondayOfMay? at heq
    split at heq
    · cases heq
    · rename_i last hlast
      have hday := Date.addDays?_eq_some_iff.1 heq
      have hindex := last.index_weekday
      omega
  have hmem : some d ∈ [newYearsDay? d.year, Date.nthWeekday? d.year 1 .monday 3,
      Date.nthWeekday? d.year 2 .monday 3, goodFriday? d.year, lastMondayOfMay? d.year,
      fixedHoliday? d.year 7 4, Date.nthWeekday? d.year 9 .monday 1,
      Date.nthWeekday? d.year 11 .thursday 4, fixedHoliday? d.year 12 25,
      if juneteenthFrom ≤ d.year then fixedHoliday? d.year 6 19 else none] := by
    have hlisted := List.contains_iff_mem.1 h
    obtain ⟨rule, hrule, rfl⟩ := List.mem_filterMap.1 hlisted
    exact hrule
  simp only [List.mem_cons, List.not_mem_nil, or_false, (hmonday _ _).symm, (hthursday _ _).symm,
    hmay.symm, false_or] at hmem
  rcases hmem with h | h | h | h | h
  · exact ⟨.newYear, h.symm⟩
  · exact ⟨.goodFriday, h.symm⟩
  · exact ⟨.independence, h.symm⟩
  · exact ⟨.christmas, h.symm⟩
  · split at h
    · exact ⟨.juneteenth, h.symm⟩
    · cases h

/-- A Tuesday, Wednesday or Friday is a trading day unless a rule closes it. -/
theorem isTradingDay_or_midweekRule {d : Date}
    (hmid : d.day % 7 = 1 ∨ d.day % 7 = 2 ∨ d.day % 7 = 4) :
    exchangeWeekdays.isTradingDay d ∨ ∃ r : MidweekRule, r.date? d.year = some d := by
  have hweekday : d.weekday.isWeekend = false := by
    unfold Date.weekday
    rcases hmid with h | h | h <;> rw [h] <;> rfl
  cases hholiday : isHoliday d with
  | true => exact .inr (exists_midweekRule hholiday hmid)
  | false => simp [isTradingDay, hweekday, hholiday]

/-- Of two dates of one week that rules close, one is at the end of a year and the other at the
start of the next. -/
theorem closed_pair {a b : Date} {r r' : MidweekRule} (ha : r.date? a.year = some a)
    (hb : r'.date? b.year = some b) (hne : a.day ≠ b.day) (hab : a.day ≤ b.day + 6)
    (hba : b.day ≤ a.day + 6) :
    (yearStart a.year + 359 ≤ a.day ∧ b.day ≤ yearStart b.year + 1) ∨
      (yearStart b.year + 359 ≤ b.day ∧ a.day ≤ yearStart a.year + 1) := by
  have hplace := MidweekRule.day_date? ha
  have hplace' := MidweekRule.day_date? hb
  have hrange : 0 ≤ r.earliest ∧ r.latest ≤ 360 := by cases r <;> decide
  have hrange' : 0 ≤ r'.earliest ∧ r'.latest ≤ 360 := by cases r' <;> decide
  rcases Int.lt_trichotomy a.year b.year with hyear | hyear | hyear
  · have hstart := yearStart_add_le hyear
    omega
  · rw [← hyear] at hb hplace' ⊢
    rcases r.apart r' with rfl | hapart | hapart
    · rw [ha] at hb
      exact absurd (congrArg Date.day (Option.some.inj hb)) hne
    · omega
    · omega
  · have hstart := yearStart_add_le hyear
    omega

/-- Of seven dates in a row one is a trading day. -/
theorem exists_isTradingDay_within_week (c : Calendar) {day : Int} (hfirst : firstDay ≤ day)
    (hlast : day + 6 ≤ lastDay) :
    ∃ d : Date, day ≤ d.day ∧ d.day ≤ day + 6 ∧ c.isTradingDay d := by
  cases c with
  | alwaysOn => exact ⟨⟨day, hfirst, by omega⟩, Int.le_refl day, show day ≤ day + 6 by omega, rfl⟩
  | exchangeWeekdays =>
      -- The dates of a weekday in the week that starts on `day`.
      have hdate : ∀ k : Int, ∃ d : Date, day ≤ d.day ∧ d.day ≤ day + 6 ∧ d.day % 7 = k % 7 := by
        intro k
        have hfits : firstDay ≤ day + (k - day) % 7 ∧ day + (k - day) % 7 ≤ lastDay := by omega
        refine ⟨⟨day + (k - day) % 7, hfits.1, hfits.2⟩, ?_, ?_, ?_⟩ <;> simp only <;> omega
      obtain ⟨tuesday, ht, ht', htuesday⟩ := hdate 1
      obtain ⟨wednesday, hw, hw', hwednesday⟩ := hdate 2
      obtain ⟨friday, hf, hf', hfriday⟩ := hdate 4
      rcases isTradingDay_or_midweekRule (.inl htuesday) with htrade | ⟨r, hr⟩
      · exact ⟨tuesday, ht, ht', htrade⟩
      rcases isTradingDay_or_midweekRule (.inr (.inl hwednesday)) with htrade | ⟨r', hr'⟩
      · exact ⟨wednesday, hw, hw', htrade⟩
      rcases isTradingDay_or_midweekRule (.inr (.inr hfriday)) with htrade | ⟨r'', hr''⟩
      · exact ⟨friday, hf, hf', htrade⟩
      -- Of the three two are at the same end of a year.
      have hpair := closed_pair hr hr' (by omega) (by omega) (by omega)
      have hpair' := closed_pair hr' hr'' (by omega) (by omega) (by omega)
      have hpair'' := closed_pair hr hr'' (by omega) (by omega) (by omega)
      omega

/-! ### The search for the next trading day -/

/-- The search gives a later trading day, and no date before it trades. -/
theorem firstTradingDayWithin_sound {c : Calendar} {span : Nat} {d d' : Date}
    (h : c.firstTradingDayWithin span d = some d') :
    d < d' ∧ c.isTradingDay d' ∧ ∀ x : Date, d < x → x < d' → c.isTradingDay x = false := by
  induction span generalizing d with
  | zero => cases h
  | succ span ih =>
      rw [firstTradingDayWithin] at h
      cases hnext : d.next? with
      | none =>
          rw [hnext] at h
          cases h
      | some next =>
          have hday := Date.next?_eq_some_iff.1 hnext
          rw [hnext] at h
          simp only at h
          split at h
          · rename_i htrade
            obtain rfl := Option.some.inj h
            refine ⟨show d.day < next.day by omega, htrade, fun x hx hx' => ?_⟩
            have hbetween : d.day < x.day ∧ x.day < next.day := ⟨hx, hx'⟩
            omega
          · rename_i hclosed
            obtain ⟨hlater, htrade, hnone⟩ := ih h
            have hlater : next.day < d'.day := hlater
            refine ⟨show d.day < d'.day by omega, htrade, fun x hx hx' => ?_⟩
            have hx : d.day < x.day := hx
            by_cases hsame : x.day = next.day
            · rw [Date.ext_day hsame]
              exact Bool.eq_false_iff.2 hclosed
            · exact hnone x (show next.day < x.day by omega) hx'

/-- The search finds a trading day if one of its dates is one. -/
theorem firstTradingDayWithin_of_isTradingDay {c : Calendar} {span : Nat} {d x : Date}
    (htrade : c.isTradingDay x) (hlater : d < x) (hspan : x.day ≤ d.day + span) :
    ∃ d', c.firstTradingDayWithin span d = some d' ∧ d' ≤ x := by
  have hlater : d.day < x.day := hlater
  induction span generalizing d with
  | zero => omega
  | succ span ih =>
      rw [firstTradingDayWithin]
      cases hnext : d.next? with
      | none =>
          have hday := Date.next?_eq_none_iff.1 hnext
          have hlast := x.le_last
          omega
      | some next =>
          have hday := Date.next?_eq_some_iff.1 hnext
          simp only
          split
          · exact ⟨next, rfl, show next.day ≤ x.day by omega⟩
          · rename_i hclosed
            have hne : x.day ≠ next.day := by
              intro hsame
              rw [Date.ext_day hsame] at htrade
              exact hclosed htrade
            have hafter : next.day < x.day := by omega
            exact ih hafter (by omega) hafter

/-- The next trading day after a date, if a trading day `x` is left, is the first one of all later
dates. -/
theorem nextTradingDay_of_lt {c : Calendar} {d x : Date} (htrade : c.isTradingDay x)
    (hlater : d < x) :
    ∃ d', c.nextTradingDay d = some d' ∧ d < d' ∧ d' ≤ x ∧ c.isTradingDay d' ∧
      ∀ y : Date, d < y → y < d' → c.isTradingDay y = false := by
  have hfound : ∃ d', c.nextTradingDay d = some d' ∧ d' ≤ x := by
    have hafter : d.day < x.day := hlater
    have hfirst := d.first_le
    have hlast := x.le_last
    by_cases hnear : x.day ≤ d.day + (searchSpan : Int)
    · exact firstTradingDayWithin_of_isTradingDay htrade hlater hnear
    · -- The week after `d` lies within the dates that are looked at, and before `x`.
      have hspan : (searchSpan : Int) = 10 := rfl
      have hstart : Civil.firstDay ≤ d.day + 1 := by omega
      obtain ⟨y, hy, hy', hytrade⟩ := c.exists_isTradingDay_within_week hstart (by omega)
      have hlater : d < y := by
        show d.day < y.day
        omega
      have hwithin : y.day ≤ d.day + (searchSpan : Int) := by omega
      obtain ⟨d', hd', hle⟩ := firstTradingDayWithin_of_isTradingDay hytrade hlater hwithin
      have hle : d'.day ≤ y.day := hle
      refine ⟨d', hd', ?_⟩
      show d'.day ≤ x.day
      omega
  obtain ⟨d', hd', hle⟩ := hfound
  obtain ⟨hafter, htrade', hclosed⟩ := firstTradingDayWithin_sound hd'
  exact ⟨d', hd', hafter, hle, htrade', hclosed⟩

/-! ### Sessions in the order of their dates -/

/-- Every trading day has an opening, and only trading days have one; it is on the date. -/
theorem sessionOpen_eq {c : Calendar} {d : Date} {t : DateTime} (h : c.sessionOpen d = some t) :
    c.isTradingDay d ∧ t.date = d := by
  unfold sessionOpen at h
  split at h
  · rename_i htrade
    obtain rfl := Option.some.inj h
    refine ⟨htrade, ?_⟩
    cases c <;> rfl
  · cases h

/-- A trading day has an opening. -/
theorem exists_sessionOpen {c : Calendar} {d : Date} (h : c.isTradingDay d) :
    ∃ t, c.sessionOpen d = some t := by
  unfold sessionOpen
  rw [if_pos h]
  exact ⟨_, rfl⟩

/-- Sessions open in the order of their dates. -/
theorem sessionOpen_lt {c : Calendar} {d d' : Date} {t t' : DateTime} (hd : d < d')
    (h : c.sessionOpen d = some t) (h' : c.sessionOpen d' = some t') : t < t' := by
  refine DateTime.lt_of_date_lt ?_
  rw [(sessionOpen_eq h).2, (sessionOpen_eq h').2]
  exact hd

/-- Sessions close in the order of their dates. -/
theorem sessionClose_lt {c : Calendar} {d d' : Date} {t t' : DateTime} (hd : d < d')
    (h : c.sessionClose d = some t) (h' : c.sessionClose d' = some t') : t < t' := by
  have hday : d.day < d'.day := hd
  unfold sessionClose at h h'
  split at h
  · split at h'
    · cases c with
      | alwaysOn =>
          obtain ⟨next, hnext, rfl⟩ := Option.map_eq_some_iff.1 h
          obtain ⟨next', hnext', rfl⟩ := Option.map_eq_some_iff.1 h'
          have hnext := Date.next?_eq_some_iff.1 hnext
          have hnext' := Date.next?_eq_some_iff.1 hnext'
          exact DateTime.lt_of_date_lt (show next.day < next'.day by omega)
      | exchangeWeekdays =>
          obtain rfl := Option.some.inj h
          obtain rfl := Option.some.inj h'
          exact DateTime.lt_of_date_lt hd
    · cases h'
  · cases h

/-- If a later date has a session, there is a next one after a date, which opens no later. -/
theorem nextSessionOpen_of_lt {c : Calendar} {d x : Date} {opening : DateTime}
    (h : c.sessionOpen x = some opening) (hlater : d < x) :
    ∃ due, c.nextSessionOpen d = some due ∧ due ≤ opening := by
  obtain ⟨d', hd', -, hle, htrade, -⟩ := nextTradingDay_of_lt (sessionOpen_eq h).1 hlater
  obtain ⟨due, hdue⟩ := exists_sessionOpen htrade
  refine ⟨due, ?_, ?_⟩
  · rw [nextSessionOpen, hd', Option.bind_some, hdue]
  · by_cases hsame : d'.day = x.day
    · rw [Date.ext_day hsame, h] at hdue
      obtain rfl := Option.some.inj hdue
      exact Int.le_refl _
    · have hle : d'.day ≤ x.day := hle
      exact Int.le_of_lt (sessionOpen_lt (show d'.day < x.day by omega) hdue h)

/-- A moment not before the next session after a date is on a later date. -/
theorem lt_date_of_nextSessionOpen {c : Calendar} {d : Date} {due t : DateTime}
    (h : c.nextSessionOpen d = some due) (hle : due ≤ t) : d < t.date := by
  obtain ⟨d', hd', hdue⟩ := Option.bind_eq_some_iff.1 h
  have hafter : d < d' := (firstTradingDayWithin_sound hd').1
  rw [← (sessionOpen_eq hdue).2] at hafter
  exact Int.lt_of_lt_of_le hafter (DateTime.day_le hle)

end Calendar

end MarketReplay
