import MarketReplay.Civil.Pattern
import MarketReplay.Proofs.Civil.Years
import MarketReplay.Proofs.Text.Digits
import MarketReplay.Proofs.Text.Margins

/-!
# Compact dates

Eight digits of year, month and day read as that date (`Civil.readDate?_compact`). Reading takes
more than these: a field may have fewer digits and blanks before them. Of a text with the century
in front, the year that is read is one of the century exactly if two digits follow
(`Civil.century_le_year_iff`).
-/

namespace MarketReplay.Civil

open Text

/-- Digits are read off the front up to the width. -/
theorem readDigits_append {digits : List Char} (hdigits : ∀ c ∈ digits, c.isDigit)
    (hne : digits ≠ []) (rest : List Char) :
    readDigits (some digits.length) (digits ++ rest) = .ok (digits, rest) := by
  have hrun : (digits ++ rest).takeWhile Char.isDigit = digits ++ rest.takeWhile Char.isDigit :=
    List.takeWhile_append_of_pos hdigits
  have hempty : digits.isEmpty = false := List.isEmpty_eq_false_iff.2 hne
  simp only [readDigits, hrun, List.take_left, hempty, List.drop_left]
  rfl

/-- A field that begins with a digit has no blanks and no sign before it. -/
theorem readField_of_isDigit (f : Field) {c : Char} (h : c.isDigit) (cs : List Char) :
    readField f (c :: cs) = (readDigits (some f.width) (c :: cs)).map fun (digits, rest) =>
      ((digitsValue digits : Int), rest) := by
  unfold readField
  rw [trimLeft_cons (isBlank_of_isDigit h)]
  split
  · rename_i heq
    obtain ⟨rfl, -⟩ := List.cons.inj heq
    cases h
  · rename_i heq
    obtain ⟨rfl, -⟩ := List.cons.inj heq
    cases h
  · rfl

/-- A field reads the number of its digits, if they are as many as it is wide. -/
theorem readField_append {f : Field} {digits : List Char} (hdigits : ∀ c ∈ digits, c.isDigit)
    (hwidth : digits.length = f.width) (rest : List Char) :
    readField f (digits ++ rest) = .ok ((digitsValue digits : Int), rest) := by
  have hne : digits ≠ [] := by
    rintro rfl
    cases f <;> cases hwidth
  have hread := readDigits_append hdigits hne rest
  obtain ⟨c, tail, rfl⟩ := List.exists_cons_of_ne_nil hne
  rw [List.cons_append, readField_of_isDigit f (hdigits c List.mem_cons_self), ← hwidth,
    ← List.cons_append, hread]
  rfl

/-- A field at the front of a pattern is read and admitted before the rest of it. -/
theorem readItems_field_eq_ok_iff {f : Field} {items : List PatternItem} {cs : List Char}
    {fs fields : Fields} :
    readItems (.field f :: items) cs fs = .ok fields ↔
      ∃ n rest, readField f cs = .ok (n, rest) ∧ f.admits n ∧
        readItems items rest (fs.set f n) = .ok fields := by
  rw [readItems]
  cases hread : readField f cs with
  | error e => simp
  | ok found =>
      obtain ⟨n, rest⟩ := found
      simp only
      constructor
      · intro h
        split at h
        · rename_i hadmits
          exact ⟨n, rest, rfl, hadmits, h⟩
        · cases h
      · rintro ⟨_, _, hsame, hadmits, h⟩
        obtain ⟨rfl, rfl⟩ := Prod.mk.inj (Except.ok.inj hsame)
        rwa [if_pos hadmits]

/-- A text is read as a date if the pattern takes it and its fields make the date. -/
theorem readDate?_eq_some_iff {pattern : List PatternItem} {cs : List Char} {d : Date} :
    readDate? pattern cs = some d ↔
      ∃ fs, readItems pattern cs {} = .ok fs ∧ fs.date? = some d := by
  unfold readDate? readDate
  cases readItems pattern cs {} with
  | error e => simp [bind, Except.bind, Except.toOption]
  | ok fs =>
      cases hdate : fs.date? <;>
        simp [bind, Except.bind, Except.toOption, hdate, pure, Except.pure, throw, throwThe,
          MonadExceptOf.throw]

/-- The fields of a compact text are a year, a month and a day, one after the other. -/
theorem readDate?_compact_eq_some_iff {cs : List Char} {d : Date} :
    readDate? compactDatePattern cs = some d ↔
      ∃ year month day afterYear afterMonth, readField .year cs = .ok (year, afterYear) ∧
        Field.year.admits year ∧
        readField .month afterYear = .ok (month, afterMonth) ∧ Field.month.admits month ∧
        readField .day afterMonth = .ok (day, []) ∧ Field.day.admits day ∧
        Date.ofCivil? year month.toNat day.toNat = some d := by
  simp only [readDate?_eq_some_iff, compactDatePattern, readItems_field_eq_ok_iff]
  constructor
  · rintro ⟨fs, ⟨year, afterYear, hyear, hyears, month, afterMonth, hmonth, hmonths, day, afterDay,
      hday, hdays, hend⟩, hdate⟩
    cases afterDay with
    | nil =>
        obtain rfl := Except.ok.inj hend
        exact ⟨year, month, day, afterYear, afterMonth, hyear, hyears, hmonth, hmonths, hday, hdays,
          hdate⟩
    | cons c rest => cases hend
  · rintro ⟨year, month, day, afterYear, afterMonth, hyear, hyears, hmonth, hmonths, hday, hdays,
      hdate⟩
    exact ⟨_, ⟨year, afterYear, hyear, hyears, month, afterMonth, hmonth, hmonths, day, [], hday,
      hdays, rfl⟩, hdate⟩

/-- A compact date reads as the date of its year, month and day. -/
theorem readDate?_compact {year month day : List Char} {d : Date}
    (hyear : (∀ c ∈ year, c.isDigit) ∧ year.length = 4)
    (hmonth : (∀ c ∈ month, c.isDigit) ∧ month.length = 2)
    (hday : (∀ c ∈ day, c.isDigit) ∧ day.length = 2)
    (hdate : Date.ofCivil? (digitsValue year) (digitsValue month) (digitsValue day) = some d) :
    readDate? compactDatePattern (year ++ (month ++ day)) = some d := by
  have hlast := readField_append (f := .day) hday.1 hday.2 []
  rw [List.append_nil] at hlast
  have hbounds := Date.bounds_of_ofCivil? hdate
  have hlt := digitsValue_lt hyear.1
  rw [hyear.2] at hlt
  refine readDate?_compact_eq_some_iff.2 ⟨_, _, _, _, _,
    readField_append (f := .year) hyear.1 hyear.2 _, ?_,
    readField_append (f := .month) hmonth.1 hmonth.2 _, ?_, hlast, ?_, hdate⟩
  · simp only [Field.admits, Bool.and_eq_true, decide_eq_true_eq]
    omega
  · simp only [Field.admits, Bool.and_eq_true, decide_eq_true_eq]
    omega
  · simp only [Field.admits, Bool.and_eq_true, decide_eq_true_eq]
    omega

/-! ### Texts with the century in front -/

/-- Behind the century, the year takes the digits that follow it, two at most. -/
theorem readField_century (cs : List Char) :
    ∃ rest, readField .year ('2' :: '0' :: cs) =
      .ok ((digitsValue (['2', '0'] ++ (cs.takeWhile Char.isDigit).take 2) : Int), rest) := by
  have hone : '2'.isDigit = true := rfl
  have hzero : '0'.isDigit = true := rfl
  rw [readField_of_isDigit .year hone]
  simp only [readDigits, List.takeWhile_cons, hone, hzero, if_true, Field.width]
  exact ⟨_, rfl⟩

/-- A date that is read behind the century lies in the century exactly if two digits of the year
follow; else it lies before, and never behind. -/
theorem century_le_year_iff {cs : List Char} {d : Date} (hlength : 2 ≤ cs.length)
    (h : readDate? compactDatePattern ('2' :: '0' :: cs) = some d) :
    (2000 ≤ d.year ↔ ∀ c ∈ cs.take 2, c.isDigit) ∧ 0 ≤ d.year ∧ d.year ≤ 2099 := by
  obtain ⟨year, month, day, afterYear, afterMonth, hyear, -, -, -, -, -, hdate⟩ :=
    readDate?_compact_eq_some_iff.1 h
  obtain ⟨rest, hcentury⟩ := readField_century cs
  obtain ⟨rfl, -⟩ := Prod.mk.inj (Except.ok.inj (hcentury.symm.trans hyear))
  have hvalue := Date.year_of_ofCivil? hdate
  have htwenty : digitsValue ['2', '0'] = 20 := rfl
  rw [digitsValue_append, htwenty] at hvalue
  have hlt := digitsValue_lt fun c hc =>
    List.mem_takeWhile_imp (List.mem_of_mem_take (i := 2) (l := cs.takeWhile Char.isDigit) hc)
  rcases cs with _ | ⟨a, _ | ⟨b, tail⟩⟩
  · exact absurd hlength (by decide)
  · exact absurd hlength (by simp)
  · have htake : (∀ c ∈ (a :: b :: tail).take 2, c.isDigit) ↔ a.isDigit ∧ b.isDigit := by simp
    rw [htake]
    -- the year has four digits, three, or those of the century only
    cases ha : a.isDigit with
    | true =>
        cases hb : b.isDigit with
        | true =>
            simp only [List.takeWhile_cons, ha, hb, if_true, List.take_succ_cons, List.take_zero,
              List.length_cons, List.length_nil] at hvalue hlt
            simp only [and_self, iff_true]
            omega
        | false =>
            simp only [List.takeWhile_cons, ha, hb, if_true, Bool.false_eq_true, if_false,
              List.take_succ_cons, List.take_nil, List.length_cons, List.length_nil] at hvalue hlt
            simp only [Bool.false_eq_true, and_false, iff_false]
            omega
    | false =>
        simp only [List.takeWhile_cons, ha, Bool.false_eq_true, if_false, List.take_nil,
          List.length_nil] at hvalue hlt
        simp only [Bool.false_eq_true, false_and, iff_false]
        omega

end MarketReplay.Civil
