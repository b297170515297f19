import MarketReplay.Civil.Time

/-!
# The order of dates and moments

Moments are ordered first by their dates (`DateTime.day_le`, `DateTime.lt_of_date_lt`). A whole
number of seconds shifts the number that orders them by a fixed amount
(`DateTime.stamp_addSeconds?`), so shifts keep the order.
-/

namespace MarketReplay

/-- The date of a year, month and day; the default one if there is no such date. -/
def Date.civil (year : Int) (month dayOfMonth : Nat) : Date :=
  (ofCivil? year month dayOfMonth).getD default

/-- The moment of a date at an hour and minute; midnight if there is no such time. -/
def DateTime.clock (date : Date) (hour minute : Nat) : DateTime :=
  ⟨date, (TimeOfDay.ofHourMinute? hour minute).getD .midnight⟩

/-- A day number in range is that of a date. -/
theorem Date.ofDay?_eq_some_iff {day : Int} {d : Date} :
    Date.ofDay? day = some d ↔ d.day = day := by
  unfold ofDay?
  constructor
  · intro h
    split at h
    · obtain rfl := Option.some.inj h
      rfl
    · cases h
  · rintro rfl
    rw [dif_pos ⟨d.first_le, d.le_last⟩]

/-- A date some days later has the day number that many days later. -/
theorem Date.addDays?_eq_some_iff {d d' : Date} {days : Int} :
    d.addDays? days = some d' ↔ d'.day = d.day + days :=
  ofDay?_eq_some_iff

/-- The next date is the one a day later. -/
theorem Date.next?_eq_some_iff {d d' : Date} : d.next? = some d' ↔ d'.day = d.day + 1 :=
  addDays?_eq_some_iff

/-- Only the last date has no next one. -/
theorem Date.next?_eq_none_iff {d : Date} : d.next? = none ↔ d.day = Civil.lastDay := by
  have hfirst := d.first_le
  have hlast := d.le_last
  unfold next? addDays? ofDay?
  rw [dite_eq_right_iff]
  simp only [reduceCtorEq, imp_false, not_and]
  omega

namespace DateTime

/-- Of two moments in order the dates are in order. -/
theorem day_le {a b : DateTime} (h : a ≤ b) : a.date.day ≤ b.date.day := by
  have ha : 0 ≤ (a.time.second : Int) * 2000000000 + a.time.nanos := by omega
  have hb : (b.time.second : Int) * 2000000000 + b.time.nanos < 86400 * 2000000000 := by
    have hsecond := b.time.second_lt
    have hnanos := b.time.nanos_lt
    omega
  have hstamp : a.stamp ≤ b.stamp := h
  unfold stamp at hstamp
  omega

/-- A moment on an earlier date is earlier. -/
theorem lt_of_date_lt {a b : DateTime} (h : a.date < b.date) : a < b := by
  refine Int.not_le.1 fun hle => ?_
  exact absurd (day_le hle) (Int.not_le.2 h)

/-- A shift by seconds moves the number that orders moments. -/
theorem stamp_addSeconds? {t t' : DateTime} {seconds : Int}
    (h : t.addSeconds? seconds = some t') : t'.stamp = t.stamp + seconds * 2000000000 := by
  unfold addSeconds? at h
  simp only at h
  split at h
  · cases h
  · rename_i date hdate
    have hday := Date.ofDay?_eq_some_iff.1 hdate
    obtain rfl := Option.some.inj h
    unfold stamp
    simp only
    omega

/-- A moment is the one some seconds after another if their numbers are that far apart. -/
theorem addSeconds?_eq_some_iff {t t' : DateTime} {seconds : Int} :
    t.addSeconds? seconds = some t' ↔ t'.stamp = t.stamp + seconds * 2000000000 := by
  refine ⟨stamp_addSeconds?, fun h => ?_⟩
  have hday : t'.date.day = (t.date.day * 86400 + t.time.second + seconds) / 86400 := by
    have hsecond := t'.time.second_lt
    have hnanos := t.time.nanos_lt
    have hnanos' := t'.time.nanos_lt
    unfold stamp at h
    omega
  obtain ⟨last, hlast⟩ : ∃ last, t.addSeconds? seconds = some last := by
    unfold addSeconds?
    simp only [Date.ofDay?_eq_some_iff.2 hday]
    exact ⟨_, rfl⟩
  have hstamp := stamp_addSeconds? hlast
  rw [hlast, ext_stamp (hstamp.trans h.symm)]

/-- A shift by seconds and a further one are one shift by both. -/
theorem addSeconds?_addSeconds? {t t' : DateTime} {seconds : Int}
    (h : t.addSeconds? seconds = some t') (more : Int) :
    t'.addSeconds? more = t.addSeconds? (seconds + more) := by
  unfold addSeconds? at h
  simp only at h
  split at h
  · cases h
  · rename_i date hdate
    have hday := Date.ofDay?_eq_some_iff.1 hdate
    obtain rfl := Option.some.inj h
    have htotal : date.day * 86400 + ((t.date.day * 86400 + t.time.second + seconds) % 86400).toNat +
        more = t.date.day * 86400 + t.time.second + (seconds + more) := by
      omega
    unfold addSeconds?
    simp only [htotal]

/-- The moment some seconds after the start of a date is on the date that many days later. -/
theorem day_of_addSeconds?_midnight {d : Date} {seconds : Int} {t : DateTime}
    (h : (midnight d).addSeconds? seconds = some t) : t.date.day = d.day + seconds / 86400 := by
  unfold addSeconds? at h
  simp only at h
  split at h
  · cases h
  · rename_i date hdate
    have hday := Date.ofDay?_eq_some_iff.1 hdate
    obtain rfl := Option.some.inj h
    have hsecond : (midnight d).time.second = 0 := rfl
    have hstart : (midnight d).date = d := rfl
    rw [hsecond, hstart] at hday
    simp only
    omega

/-- There is a moment some seconds after the start of a date if there is the date. -/
theorem exists_addSeconds?_midnight {d d' : Date} {seconds : Int}
    (h : d'.day = d.day + seconds / 86400) : ∃ t, (midnight d).addSeconds? seconds = some t := by
  have hday : d'.day = (d.day * 86400 + (midnight d).time.second + seconds) / 86400 := by
    have hsecond : (midnight d).time.second = 0 := rfl
    rw [hsecond]
    omega
  have hdate : Date.ofDay? (((midnight d).date.day * 86400 + (midnight d).time.second + seconds) /
      86400) = some d' := Date.ofDay?_eq_some_iff.2 hday
  unfold addSeconds?
  simp only [hdate]
  exact ⟨_, rfl⟩

/-- A moment some seconds later is later. -/
theorem lt_of_addSeconds? {t t' : DateTime} {seconds : Int}
    (h : t.addSeconds? seconds = some t') (hpos : 0 < seconds) : t < t' := by
  have hstamp := stamp_addSeconds? h
  show t.stamp < t'.stamp
  omega

/-- Moments shifted by the same seconds stay in order. -/
theorem addSeconds?_lt {a b a' b' : DateTime} {seconds : Int} (hab : a < b)
    (ha : a.addSeconds? seconds = some a') (hb : b.addSeconds? seconds = some b') : a' < b' := by
  have hlt : a.stamp < b.stamp := hab
  have hstamp := stamp_addSeconds? ha
  have hstamp' := stamp_addSeconds? hb
  show a'.stamp < b'.stamp
  omega

end DateTime

end MarketReplay
