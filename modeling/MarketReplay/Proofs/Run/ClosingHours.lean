import MarketReplay.Proofs.Civil.DateRanges
import MarketReplay.Proofs.Run.GridInstants
import MarketReplay.Proofs.Schedule.Punctual
import MarketReplay.Strategy.Builtin

/-!
# The hour before the close on the grid

The sessions of both calendars close a whole number of hours after midnight
(`Calendar.sessionClose_stamp`). So the moment an hour before the close is on the date of the
session, and is an instant of every clock over that date with steps of an hour or less
(`exists_grid_of_closingHour`).
-/

namespace MarketReplay

namespace Calendar

variable {c : Calendar} {d : Date} {t : DateTime}

/-- The moment an hour before the close of a date's session. -/
def closingHour (c : Calendar) (d : Date) : Option DateTime :=
  (c.sessionClose d).bind fun close => close.addSeconds? (-3600)

/-- A session closes a number of hours after the start of its date. -/
theorem sessionClose_stamp (h : c.sessionClose d = some t) :
    c.isTradingDay d ∧ ∃ hours : Nat, 0 < hours ∧ hours ≤ 24 ∧
      t.stamp = (d.day * 86400 + hours * 3600) * 2000000000 := by
  unfold sessionClose at h
  split at h
  swap
  · cases h
  rename_i htrade
  refine ⟨htrade, ?_⟩
  cases c with
  | alwaysOn =>
      obtain ⟨next, hnext, rfl⟩ := Option.map_eq_some_iff.1 h
      have hday := Date.next?_eq_some_iff.1 hnext
      refine ⟨24, by decide, by decide, ?_⟩
      show (next.day * 86400 + 0) * 2000000000 + 0 = (d.day * 86400 + 24 * 3600) * 2000000000
      omega
  | exchangeWeekdays =>
      obtain rfl := Option.some.inj h
      refine ⟨16, by decide, by decide, ?_⟩
      show (d.day * 86400 + 57600) * 2000000000 + 0 = (d.day * 86400 + 16 * 3600) * 2000000000
      omega

/-- So the hour before the close begins at a whole hour of the date. -/
theorem closingHour_stamp (h : c.closingHour d = some t) :
    c.isTradingDay d ∧ ∃ hours : Nat, hours < 24 ∧
      t.stamp = (d.day * 86400 + hours * 3600) * 2000000000 := by
  obtain ⟨close, hclose, hshift⟩ := Option.bind_eq_some_iff.1 h
  obtain ⟨htrade, hours, hpos, hle, hstamp⟩ := sessionClose_stamp hclose
  have hshifted := DateTime.stamp_addSeconds? hshift
  exact ⟨htrade, hours - 1, by omega, by omega⟩

/-- It begins on the date. -/
theorem date_of_closingHour (h : c.closingHour d = some t) : t.date = d := by
  obtain ⟨-, hours, hlt, hstamp⟩ := closingHour_stamp h
  have hsecond := t.time.second_lt
  have hnanos := t.time.nanos_lt
  unfold DateTime.stamp at hstamp
  exact Date.ext_day (by omega)

/-- Every trading day that another date follows has an hour before the close. -/
theorem exists_closingHour (htrade : c.isTradingDay d) (hlast : d < .last) :
    ∃ t, c.closingHour d = some t := by
  have hfirst := d.first_le
  have hnext : d.next? = some ⟨d.day + 1, by omega, hlast⟩ := Date.next?_eq_some_iff.2 rfl
  obtain ⟨close, hclose⟩ : ∃ close, c.sessionClose d = some close := by
    unfold sessionClose
    rw [if_pos htrade]
    cases c with
    | alwaysOn => exact ⟨_, congrArg (Option.map DateTime.midnight) hnext⟩
    | exchangeWeekdays => exact ⟨_, rfl⟩
  obtain ⟨-, hours, hpos, hle, hstamp⟩ := sessionClose_stamp hclose
  have hsecond : (hours - 1) * 3600 < 86400 := by omega
  refine ⟨⟨d, (hours - 1) * 3600, 0, hsecond, by decide⟩, ?_⟩
  rw [closingHour, hclose, Option.bind_some, DateTime.addSeconds?_eq_some_iff, hstamp]
  unfold DateTime.stamp
  simp only
  omega

end Calendar

/-! ### The rule of the daily strategy -/

namespace Builtin

/-- The rule is due an hour before the close of every trading day. -/
theorem fireTime_hourBeforeClose (c : Calendar) (d : Date) :
    hourBeforeClose.fireTime c d = .ok (c.closingHour d) := by
  unfold Calendar.closingHour ScheduleRule.fireTime
  by_cases htrade : c.isTradingDay d
  · rw [if_pos (show hourBeforeClose.date.admits c d from htrade)]
    show shiftMinutes (c.sessionClose d) (-60) = _
    cases c.sessionClose d <;> rfl
  · rw [if_neg (show ¬ hourBeforeClose.date.admits c d from htrade)]
    unfold Calendar.sessionClose
    rw [if_neg htrade]
    rfl

theorem hourBeforeClose_sameDay (c : Calendar) : hourBeforeClose.SameDay c := by
  intro d t hfire
  rw [fireTime_hourBeforeClose] at hfire
  exact Calendar.date_of_closingHour (Except.ok.inj hfire)

/-- Its moments are those an hour before the close of their dates. -/
theorem isMoment_hourBeforeClose {c : Calendar} {t : DateTime} :
    hourBeforeClose.isMoment c t ↔ c.closingHour t.date = some t := by
  rw [ScheduleRule.isMoment_iff, fireTime_hourBeforeClose]
  exact ⟨Except.ok.inj, congrArg Except.ok⟩

end Builtin

/-! ### Its moments on the grid -/

namespace Resolution

variable {r : Resolution}

/-- Steps of an hour. -/
def perHour (r : Resolution) : Nat := 3600 / r.seconds

/-- An hour is a whole number of steps unless these are days. -/
theorem perHour_mul_seconds (hr : r ≠ .daily) : r.perHour * r.seconds = 3600 := by
  cases r with
  | daily => exact absurd rfl hr
  | _ => rfl

end Resolution

/-- The hour before the close of every date of a grid begins at one of its instants, unless its
steps are days. -/
theorem exists_grid_of_closingHour {c : Calendar} {start last d : Date} {r : Resolution}
    {t : DateTime} (hr : r ≠ .daily) (h : c.closingHour d = some t) (hstart : start ≤ d)
    (hlast : d ≤ last) :
    ∃ k < gridSize start last r, gridInstant? start r k = some ⟨t, r⟩ := by
  obtain ⟨-, hours, hlt, hstamp⟩ := Calendar.closingHour_stamp h
  have hhour := Resolution.perHour_mul_seconds hr
  have hday := r.perDay_mul_seconds
  have hstart : start.day ≤ d.day := hstart
  have hlast : d.day ≤ last.day := hlast
  obtain ⟨days, hdays⟩ : ∃ days : Nat, (days : Int) = d.day - start.day :=
    ⟨(d.day - start.day).toNat, by omega⟩
  have hseconds : (days * r.perDay + hours * r.perHour) * r.seconds =
      days * 86400 + hours * 3600 := by
    rw [Nat.add_mul, Nat.mul_assoc, Nat.mul_assoc, hhour, hday]
  refine ⟨days * r.perDay + hours * r.perHour, ?_, gridInstant?_eq_some_iff.2 ⟨?_, rfl⟩⟩
  · rw [← Nat.mul_lt_mul_right r.seconds_pos, hseconds, gridSize_eq, Nat.mul_assoc, hday,
      Date.through]
    omega
  · rw [hstamp, ← Nat.cast_mul, hseconds]
    push_cast
    omega

namespace FirstOfGrid

variable {start last : Date} {r : Resolution} {instants : List Instant} {now : Instant}

/-- Requests at all instants of a grid whose steps are at most an hour are made at all moments an
hour before a close. -/
theorem punctual (hr : r ≠ .daily) (h : FirstOfGrid start r (instants ++ [now])) (c : Calendar) :
    Scheduler.Punctual c Builtin.hourBeforeClose (.midnight start) (instants.map Instant.time)
      now.time := by
  have hrising := (List.pairwise_append.1 h.rising).2.2
  obtain ⟨hfirst, hlast⟩ := h.of_concat
  have hstamp := (gridInstant?_eq_some_iff.1 hlast).1
  refine ⟨Builtin.hourBeforeClose_sameDay c, ?_, ?_, ?_⟩
  · show (start.day * 86400 + 0) * 2000000000 + 0 ≤ now.time.stamp
    rw [hstamp, ← Nat.cast_mul]
    omega
  · intro m hm
    obtain ⟨i, hi, rfl⟩ := List.mem_map.1 hm
    exact hrising i hi now List.mem_cons_self
  · intro d t hfire hregistered hreached
    have hclosing : c.closingHour d = some t := by
      rw [Builtin.fireTime_hourBeforeClose] at hfire
      exact Except.ok.inj hfire
    have hdate := Calendar.date_of_closingHour hclosing
    have hstart : start ≤ d := by
      rw [← hdate]
      exact DateTime.day_le hregistered
    obtain ⟨k, -, hk⟩ := exists_grid_of_closingHour hr hclosing hstart (Int.le_refl _)
    have hmoment := (gridInstant?_eq_some_iff.1 hk).1
    have hle : k ≤ instants.length := by
      have hreached : t.stamp ≤ now.time.stamp := hreached
      rw [hmoment, hstamp, ← Nat.cast_mul, ← Nat.cast_mul] at hreached
      exact Nat.le_of_mul_le_mul_right (by omega) r.seconds_pos
    rcases Nat.lt_or_eq_of_le hle with hlt | rfl
    · exact .inl (List.mem_map.2 ⟨_, hfirst.mem_iff.2 ⟨k, hlt, hk⟩, rfl⟩)
    · rw [hlast] at hk
      exact .inr (congrArg Instant.time (Option.some.inj hk)).symm

/-- The instants of a grid that are an hour before a close are one on each of its trading days. -/
theorem dates_of_moments (hr : r ≠ .daily) (h : FirstOfGrid start r instants)
    (hlength : instants.length = gridSize start last r) (hlast : last < .last) (c : Calendar) :
    (instants.filter fun i => Builtin.hourBeforeClose.isMoment c i.time).map Instant.date =
      (start.datesThrough last).filter c.isTradingDay := by
  refine Date.rising_ext (List.pairwise_map.2 ?_)
    ((Date.datesThrough_rising start last).sublist List.filter_sublist) fun d => ?_
  · refine List.pairwise_filter.2 (h.rising.imp ?_)
    intro i j hlt hi hj
    rcases Int.lt_or_eq_of_le (DateTime.day_le (Int.le_of_lt hlt)) with hbefore | hsame
    · exact hbefore
    · -- On one date there is one such moment.
      have hi := Builtin.isMoment_hourBeforeClose.1 hi
      rw [Date.ext_day hsame, Builtin.isMoment_hourBeforeClose.1 hj] at hi
      rw [Option.some.inj hi] at hlt
      exact absurd hlt (Int.lt_irrefl _)
  · rw [List.mem_map, List.mem_filter, Date.mem_datesThrough]
    constructor
    · rintro ⟨i, hi, rfl⟩
      obtain ⟨hmem, hmoment⟩ := List.mem_filter.1 hi
      have hclosing := Builtin.isMoment_hourBeforeClose.1 hmoment
      obtain ⟨k, hk, hgrid⟩ := h.mem_iff.1 hmem
      have hday := Date.addDays?_eq_some_iff.1 (date_of_gridInstant? hgrid)
      rw [hlength, gridSize_eq] at hk
      have hpassed : k / r.perDay < start.through last :=
        Nat.div_lt_of_lt_mul (by rwa [Nat.mul_comm])
      generalize k / r.perDay = days at hday hpassed
      unfold Date.through at hpassed
      refine ⟨⟨?_, ?_⟩, (Calendar.closingHour_stamp hclosing).1⟩
      · show start.day ≤ i.date.day
        omega
      · show i.date.day ≤ last.day
        omega
    · rintro ⟨⟨hstart, hle⟩, htrade⟩
      obtain ⟨t, ht⟩ := Calendar.exists_closingHour htrade (Int.lt_of_le_of_lt hle hlast)
      obtain ⟨k, hk, hgrid⟩ := exists_grid_of_closingHour hr ht hstart hle
      have hdate := Calendar.date_of_closingHour ht
      refine ⟨⟨t, r⟩, List.mem_filter.2 ⟨h.mem_iff.2 ⟨k, hlength ▸ hk, hgrid⟩, ?_⟩, hdate⟩
      rw [Builtin.isMoment_hourBeforeClose, hdate]
      exact ht

end FirstOfGrid

end MarketReplay
