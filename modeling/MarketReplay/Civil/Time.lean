import MarketReplay.Civil.Date

/-!
# Times of day and moments

A time of day counts whole seconds and billionths. A leap second is kept as the last second of its
minute with a billion or more billionths, so it sorts after that second and before the next
minute. A `DateTime` is a date and a time of day; its order is that of one number, `stamp`.
-/

namespace MarketReplay

/-- A time of day. -/
structure TimeOfDay where
  second : Nat
  nanos : Nat
  second_lt : second < 86400
  nanos_lt : nanos < 2000000000
  deriving DecidableEq

namespace TimeOfDay

/-- The start of a day. -/
def midnight : TimeOfDay := ⟨0, 0, by decide, by decide⟩

instance : Inhabited TimeOfDay := ⟨midnight⟩

/-- A fraction of a second is one of a time of day. -/
theorem emod_nanos_lt (nanos : Nat) : nanos % 1000000000 < 2000000000 := by omega

/-- The time of an hour, minute and second; the second 60 is a leap second. -/
def ofClock? (hour minute second nanos : Nat) : Option TimeOfDay :=
  let second' := min second 59
  let nanos' := if second = 60 then 1000000000 + nanos else nanos
  if h : hour < 24 ∧ minute < 60 ∧ second ≤ 60 ∧ nanos < 1000000000 then
    some ⟨hour * 3600 + minute * 60 + second', nanos', by omega, by
      show (if second = 60 then 1000000000 + nanos else nanos) < 2000000000
      split <;> omega⟩
  else none

/-- The time of an hour and minute. -/
def ofHourMinute? (hour minute : Nat) : Option TimeOfDay := ofClock? hour minute 0 0

/-- The hour. -/
def hour (t : TimeOfDay) : Nat := t.second / 3600

/-- The minute of the hour. -/
def minute (t : TimeOfDay) : Nat := t.second / 60 % 60

/-- The second of the minute, 60 for a leap second. -/
def secondOfMinute (t : TimeOfDay) : Nat := t.second % 60 + t.nanos / 1000000000

/-- Hour, minute and second, with colons. -/
def wholeText (t : TimeOfDay) : String :=
  Text.zeroPadded 2 t.hour ++ ":" ++ Text.zeroPadded 2 t.minute ++ ":" ++
    Text.zeroPadded 2 t.secondOfMinute

/-- The fraction of the second in 3, 6 or 9 digits; nothing for a whole second. -/
def fractionText (t : TimeOfDay) : String :=
  let nanos := t.nanos % 1000000000
  if nanos = 0 then ""
  else if nanos % 1000000 = 0 then "." ++ Text.zeroPadded 3 (nanos / 1000000)
  else if nanos % 1000 = 0 then "." ++ Text.zeroPadded 6 (nanos / 1000)
  else "." ++ Text.zeroPadded 9 nanos

/-- Hour, minute, second and fraction. -/
def text (t : TimeOfDay) : String := t.wholeText ++ t.fractionText

end TimeOfDay

/-- A moment in exchange time. -/
structure DateTime where
  date : Date
  time : TimeOfDay
  deriving DecidableEq

namespace DateTime

/-- One number that orders moments: twice the billionths since day 0, leap seconds fitted in. -/
def stamp (t : DateTime) : Int :=
  (t.date.day * 86400 + t.time.second) * 2000000000 + t.time.nanos

instance : Ord DateTime := ⟨compareOn stamp⟩
instance : LT DateTime := ⟨fun a b => a.stamp < b.stamp⟩
instance : LE DateTime := ⟨fun a b => a.stamp ≤ b.stamp⟩
instance (a b : DateTime) : Decidable (a < b) := inferInstanceAs (Decidable (a.stamp < b.stamp))
instance (a b : DateTime) : Decidable (a ≤ b) := inferInstanceAs (Decidable (a.stamp ≤ b.stamp))

instance : Std.TransOrd DateTime := inferInstanceAs (Std.TransCmp (compareOn stamp))

instance : Inhabited DateTime := ⟨⟨default, default⟩⟩

/-- Moments are told apart by their stamps. -/
theorem ext_stamp {a b : DateTime} (h : a.stamp = b.stamp) : a = b := by
  obtain ⟨⟨da, ha, ha'⟩, sa, na, hsa, hna⟩ := a
  obtain ⟨⟨db, hb, hb'⟩, sb, nb, hsb, hnb⟩ := b
  simp only [stamp] at h
  obtain rfl : na = nb := by omega
  obtain rfl : sa = sb := by omega
  obtain rfl : da = db := by omega
  rfl

instance : Std.LawfulEqOrd DateTime where
  eq_of_compare {a b} h :=
    have h : compare a.stamp b.stamp = .eq := h
    ext_stamp (Std.LawfulEqCmp.eq_of_compare h)

/-- The start of a date. -/
def midnight (d : Date) : DateTime := ⟨d, .midnight⟩

/-- The seconds of a day are fewer than 86400. -/
theorem toNat_emod_day_lt (seconds : Int) : (seconds % 86400).toNat < 86400 := by omega

/-- The moment a whole number of seconds later, the fraction kept. -/
def addSeconds? (t : DateTime) (seconds : Int) : Option DateTime :=
  let total := t.date.day * 86400 + t.time.second + seconds
  match Date.ofDay? (total / 86400) with
  | none => none
  | some date =>
    some ⟨date, (total % 86400).toNat, t.time.nanos, toNat_emod_day_lt total, t.time.nanos_lt⟩

/-- Date and time with a blank between them. -/
def text (t : DateTime) : String := t.date.text ++ " " ++ t.time.text

/-- Date and time with a blank between them, the fraction left out. -/
def wholeText (t : DateTime) : String := t.date.text ++ " " ++ t.time.wholeText

/-- Date and time with a `T` between them. -/
def isoText (t : DateTime) : String := t.date.text ++ "T" ++ t.time.text

end DateTime

end MarketReplay
