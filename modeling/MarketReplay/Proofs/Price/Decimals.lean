import Mathlib.Data.List.Basic
import MarketReplay.Price
import MarketReplay.Proofs.Text.Digits
import MarketReplay.Proofs.Text.Margins

/-!
# Decimal texts of amounts

A decimal is a run of digits, perhaps with a point and more digits behind it, and a text writes an
amount by a decimal with a sign or none between blank margins (`Price.Writes`).
`Price.decimal_codec` says that reading accepts exactly the texts that write an amount, with that
amount, that the text which is written of an amount reads back as it, and that this text is tidy.
-/

namespace MarketReplay.Price

open Text

/-- The sign before a decimal. -/
inductive Sign where
  | none | plus | minus

/-- The text of a sign. -/
def Sign.text : Sign → List Char
  | none => []
  | plus => ['+']
  | minus => ['-']

/-- An amount with a sign. -/
def Sign.apply : Sign → Nat → Int
  | minus, amount => -amount
  | _, amount => amount

/-- A decimal without a sign: digits, and perhaps a point with digits behind it; one digit at
least. -/
structure Decimal where
  whole : List Char
  places : Option (List Char)
  whole_isDigit : ∀ c ∈ whole, c.isDigit
  places_isDigit : ∀ c ∈ places.getD [], c.isDigit
  some_digit : whole ≠ [] ∨ places.getD [] ≠ []

namespace Decimal

/-- The text of a decimal. -/
def text (d : Decimal) : List Char :=
  match d.places with
  | none => d.whole
  | some places => d.whole ++ '.' :: places

/-- The micro-units of a decimal: its whole units, and six of its places, zeros where it has
fewer. -/
def micros (d : Decimal) : Nat :=
  Nat.ofDigitChars 10 d.whole 0 * 10 ^ 6 +
    Nat.ofDigitChars 10 ((d.places.getD []).takeD 6 '0') 0

end Decimal

/-- Whether a text writes an amount: between blank margins, by a sign or none and a decimal, and
the magnitude is a 64-bit integer. -/
def Writes (s : String) (amount : Int) : Prop :=
  ∃ (front back : List Char) (sign : Sign) (d : Decimal),
    (∀ c ∈ front, isBlank c) ∧ (∀ c ∈ back, isBlank c) ∧
      s.toList = front ++ (sign.text ++ d.text) ++ back ∧
      sign.apply d.micros = amount ∧ amount.natAbs ≤ 2 ^ 63 - 1

/-- A decimal text without anything to spare: a minus stands before an amount that is not zero
only, and a point before places that do not end with a zero. -/
structure Tidy (text : List Char) : Prop where
  minus : ∀ rest, text = '-' :: rest → ∃ c ∈ rest, c.isDigit ∧ c ≠ '0'
  point : ∀ front back, text = front ++ '.' :: back →
    ∃ c, back.getLast? = some c ∧ c.isDigit ∧ c ≠ '0'

/-! ### Reading -/

/-- The first places of some digits are theirs, with zeros where there are fewer. -/
theorem takeD_zero_eq (n : Nat) (digits : List Char) :
    digits.takeD n '0' = digits.take n ++ List.replicate (n - digits.length) '0' := by
  induction n generalizing digits with
  | zero => simp
  | succ n ih => cases digits <;> simp [List.takeD_succ, ih, List.replicate_succ]

/-- No digit is the point. -/
theorem bne_point {c : Char} (h : c.isDigit) : (c != '.') = true := by
  rw [bne_iff_ne]
  rintro rfl
  exact absurd h (by decide)

namespace Decimal

/-- The parts of a decimal are those before and after its first point. -/
theorem split_text (d : Decimal) : d.text.takeWhile (· != '.') = d.whole ∧
    (d.text.dropWhile (· != '.')).drop 1 = d.places.getD [] := by
  have hwhole : ∀ c ∈ d.whole, (c != '.') = true := fun c hc => bne_point (d.whole_isDigit c hc)
  unfold text
  cases d.places with
  | none =>
      refine ⟨List.takeWhile_eq_self_iff.2 hwhole, ?_⟩
      rw [List.dropWhile_eq_nil_iff.2 hwhole]
      rfl
  | some places =>
      refine ⟨?_, ?_⟩
      · rw [List.takeWhile_append_of_pos hwhole]
        exact List.append_nil d.whole
      · rw [List.dropWhile_append_of_pos hwhole]
        rfl

/-- The text of a decimal is read as its micro-units. -/
theorem parseUnsigned?_text (d : Decimal) : parseUnsigned? d.text = some d.micros := by
  obtain ⟨hwhole, hplaces⟩ := d.split_text
  have hsome : (d.whole.isEmpty && (d.places.getD []).isEmpty) = false := by
    rw [Bool.and_eq_false_iff, List.isEmpty_eq_false_iff, List.isEmpty_eq_false_iff]
    exact d.some_digit
  have hdigits : (d.whole.all Char.isDigit && (d.places.getD []).all Char.isDigit) = true := by
    rw [Bool.and_eq_true, List.all_eq_true, List.all_eq_true]
    exact ⟨d.whole_isDigit, d.places_isDigit⟩
  simp only [parseUnsigned?, hwhole, hplaces, hsome, hdigits, fractionValue, ← takeD_zero_eq]
  rfl

/-- What is read is the text of a decimal. -/
theorem exists_text {body : List Char} {amount : Nat} (h : parseUnsigned? body = some amount) :
    ∃ d : Decimal, d.text = body := by
  unfold parseUnsigned? at h
  simp only at h
  split at h
  · cases h
  · split at h
    · cases h
    · rename_i hsome hdigits
      rw [Bool.and_eq_true, List.isEmpty_iff, List.isEmpty_iff, not_and_or] at hsome
      rw [Bool.not_eq_true, Bool.not_eq_false', Bool.and_eq_true, List.all_eq_true,
        List.all_eq_true] at hdigits
      cases hrest : body.dropWhile (· != '.') with
      | nil =>
          rw [hrest] at hsome hdigits
          refine ⟨⟨_, none, hdigits.1, hdigits.2, hsome⟩, ?_⟩
          have hbody := List.takeWhile_append_dropWhile (p := (· != '.')) (l := body)
          rwa [hrest, List.append_nil] at hbody
      | cons c places =>
          rw [hrest] at hsome hdigits
          have hpoint : c = '.' := by
            have hhead := List.head_dropWhile_not (· != '.') (l := body) (by simp [hrest])
            simpa [hrest] using hhead
          refine ⟨⟨_, some places, hdigits.1, hdigits.2, hsome⟩, ?_⟩
          have hbody := List.takeWhile_append_dropWhile (p := (· != '.')) (l := body)
          rwa [hrest, hpoint] at hbody

/-- A decimal begins with a digit or the point. -/
theorem head_text (d : Decimal) :
    ∃ c rest, d.text = c :: rest ∧ (c.isDigit ∨ c = '.') := by
  unfold text
  cases hwhole : d.whole with
  | cons c rest =>
      have hdigit := d.whole_isDigit c (hwhole ▸ List.mem_cons_self)
      cases d.places with
      | none => exact ⟨c, rest, rfl, .inl hdigit⟩
      | some places => exact ⟨c, rest ++ '.' :: places, rfl, .inl hdigit⟩
  | nil =>
      cases hplaces : d.places with
      | none =>
          have hsome := d.some_digit
          rw [hwhole, hplaces] at hsome
          simp at hsome
      | some places => exact ⟨'.', places, rfl, .inr rfl⟩

/-- A decimal is made of digits and the point. -/
theorem isDigit_or_of_mem_text {d : Decimal} {c : Char} (h : c ∈ d.text) :
    c.isDigit ∨ c = '.' := by
  unfold text at h
  cases hplaces : d.places with
  | none =>
      rw [hplaces] at h
      exact .inl (d.whole_isDigit c h)
  | some places =>
      rw [hplaces] at h
      rcases List.mem_append.1 h with hwhole | hrest
      · exact .inl (d.whole_isDigit c hwhole)
      · rcases List.mem_cons.1 hrest with hpoint | hmem
        · exact .inr hpoint
        · exact .inl (d.places_isDigit c (hplaces ▸ hmem))

end Decimal

/-- The sign of a text is taken off, and no other character. -/
theorem exists_sign (cs : List Char) : ∃ sign : Sign, cs = sign.text ++ (splitSign cs).2 := by
  unfold splitSign
  split
  · exact ⟨.minus, rfl⟩
  · exact ⟨.plus, rfl⟩
  · exact ⟨.none, rfl⟩

/-- A decimal has no sign of its own. -/
theorem splitSign_text (sign : Sign) (d : Decimal) :
    (splitSign (sign.text ++ d.text)).2 = d.text ∧
    ∀ amount : Nat, sign.apply amount =
      if (splitSign (sign.text ++ d.text)).1 then -(amount : Int) else amount := by
  obtain ⟨c, rest, htext, hhead⟩ := d.head_text
  cases sign with
  | plus => exact ⟨rfl, fun _ => rfl⟩
  | minus => exact ⟨rfl, fun _ => rfl⟩
  | none =>
      have hnone : splitSign d.text = (false, d.text) := by
        rw [htext]
        unfold splitSign
        split
        · rename_i hminus
          obtain rfl := (List.cons.inj hminus).1
          exact absurd hhead (by decide)
        · rename_i hplus
          obtain rfl := (List.cons.inj hplus).1
          exact absurd hhead (by decide)
        · rfl
      rw [Sign.text, List.nil_append, hnone]
      exact ⟨rfl, fun _ => rfl⟩

/-- A decimal and its sign hold no blank. -/
theorem isBlank_of_mem_signed {sign : Sign} {d : Decimal} {c : Char}
    (h : c ∈ sign.text ++ d.text) : isBlank c = false := by
  rcases List.mem_append.1 h with hsign | htext
  · cases sign with
    | none => cases hsign
    | plus =>
        rw [List.mem_singleton.1 hsign]
        decide
    | minus =>
        rw [List.mem_singleton.1 hsign]
        decide
  · rcases d.isDigit_or_of_mem_text htext with hdigit | rfl
    · exact isBlank_of_isDigit hdigit
    · decide

/-- The magnitude of an amount with a sign. -/
theorem natAbs_apply (sign : Sign) (amount : Nat) : (sign.apply amount).natAbs = amount := by
  cases sign <;> simp [Sign.apply]

/-- A decimal with its sign between blank margins is read, if its magnitude is a 64-bit integer. -/
theorem parseChars?_signed {front back : List Char} (hfront : ∀ c ∈ front, isBlank c)
    (hback : ∀ c ∈ back, isBlank c) (sign : Sign) (d : Decimal) :
    parseChars? (front ++ (sign.text ++ d.text) ++ back) =
      if (d.micros : Int) ≤ maxInt64 then some (sign.apply d.micros) else none := by
  have htrim : trim (front ++ (sign.text ++ d.text) ++ back) = sign.text ++ d.text :=
    (trim_eq_iff fun c hc => isBlank_of_mem_signed hc).2 ⟨front, back, hfront, hback, rfl⟩
  obtain ⟨hbody, happly⟩ := splitSign_text sign d
  simp only [parseChars?, htrim, hbody, d.parseUnsigned?_text, ← happly]

/-- A text is read as the amount that it writes, and no other text is read. -/
theorem parse?_eq_some_iff {s : String} {amount : Int} :
    parse? s = some amount ↔ Writes s amount := by
  have hmax : maxInt64 = 2 ^ 63 - 1 := rfl
  unfold parse?
  constructor
  · intro h
    obtain ⟨front, back, hfront, hback, htext⟩ := exists_margins s.toList
    obtain ⟨sign, hsign⟩ := exists_sign (trim s.toList)
    have hdecimal : ∃ d : Decimal, d.text = (splitSign (trim s.toList)).2 := by
      unfold parseChars? at h
      simp only at h
      split at h
      · cases h
      · rename_i hmagnitude
        exact Decimal.exists_text hmagnitude
    obtain ⟨d, hd⟩ := hdecimal
    rw [hsign, ← hd] at htext
    rw [htext, parseChars?_signed hfront hback] at h
    split at h
    · obtain rfl := Option.some.inj h
      refine ⟨front, back, sign, d, hfront, hback, htext, rfl, ?_⟩
      rw [natAbs_apply]
      omega
    · cases h
  · rintro ⟨front, back, sign, d, hfront, hback, htext, rfl, hfits⟩
    rw [natAbs_apply] at hfits
    rw [htext, parseChars?_signed hfront hback, if_pos (by omega)]

/-! ### Writing -/

/-- What is dropped of some digits are zeros. -/
theorem exists_dropTrailingZeros (digits : List Char) :
    ∃ n, digits = dropTrailingZeros digits ++ List.replicate n '0' := by
  refine ⟨(digits.reverse.takeWhile (· == '0')).length, ?_⟩
  have hzeros : digits.reverse.takeWhile (· == '0') =
      List.replicate (digits.reverse.takeWhile (· == '0')).length '0' :=
    List.eq_replicate_of_mem fun c hc => by simpa using List.mem_takeWhile_imp hc
  have hdigits := congrArg List.reverse
    (List.takeWhile_append_dropWhile (p := (· == '0')) (l := digits.reverse))
  rw [List.reverse_append, List.reverse_reverse, hzeros, List.reverse_replicate] at hdigits
  exact hdigits.symm

/-- The first places of digits without their last zeros are the digits, if these are as many. -/
theorem takeD_dropTrailingZeros {digits : List Char} {n : Nat} (h : digits.length = n) :
    (dropTrailingZeros digits).takeD n '0' = digits := by
  obtain ⟨k, hdigits⟩ := exists_dropTrailingZeros digits
  have hlength := congrArg List.length hdigits
  rw [List.length_append, List.length_replicate, h] at hlength
  have hfill : n - (dropTrailingZeros digits).length = k := by omega
  rw [takeD_zero_eq, List.take_of_length_le (by omega), hfill, ← hdigits]

/-- Digits without their last zeros end with another digit, if there is one. -/
theorem getLast?_dropTrailingZeros {digits : List Char} (h : ∃ c ∈ digits, c ≠ '0') :
    ∃ c ∈ digits, (dropTrailingZeros digits).getLast? = some c ∧ c ≠ '0' := by
  obtain ⟨other, hother, hne⟩ := h
  have hrest : digits.reverse.dropWhile (· == '0') ≠ [] := by
    rw [Ne, List.dropWhile_eq_nil_iff]
    intro hzeros
    exact hne (beq_iff_eq.1 (hzeros other (List.mem_reverse.2 hother)))
  have hhead := List.head_dropWhile_not (· == '0') hrest
  refine ⟨_, List.mem_reverse.1 ((List.dropWhile_suffix _).mem (List.head_mem hrest)), ?_,
    beq_eq_false_iff_ne.1 hhead⟩
  rw [dropTrailingZeros, List.getLast?_reverse, List.head?_eq_some_head hrest]

/-- Digits that are worth something are not all zeros. -/
theorem exists_ne_zero {digits : List Char} (h : digitsValue digits ≠ 0) :
    ∃ c ∈ digits, c ≠ '0' := by
  by_contra hzeros
  have hreplicate : digits = List.replicate digits.length '0' :=
    List.eq_replicate_of_mem fun c hc => not_not.1 fun hne => hzeros ⟨c, hc, hne⟩
  rw [hreplicate, digitsValue_replicate_zero] at h
  exact h rfl

/-- The places that are written of a fraction of one unit, if it is not zero. -/
def placesOf (fraction : Nat) : Option (List Char) :=
  if fraction = 0 then none else some (dropTrailingZeros (zeroPadded 6 fraction).toList)

/-- Places are digits. -/
theorem isDigit_of_mem_placesOf {fraction : Nat} {c : Char}
    (h : c ∈ (placesOf fraction).getD []) : c.isDigit := by
  unfold placesOf at h
  split at h
  · cases h
  · rw [Option.getD_some] at h
    obtain ⟨n, hdigits⟩ := exists_dropTrailingZeros (zeroPadded 6 fraction).toList
    have hmem : c ∈ (zeroPadded 6 fraction).toList := by
      rw [hdigits]
      exact List.mem_append_left _ h
    exact isDigit_of_mem_zeroPadded hmem

/-- Six places are worth the fraction. -/
theorem digitsValue_placesOf {fraction : Nat} (h : fraction < scale) :
    digitsValue (((placesOf fraction).getD []).takeD 6 '0') = fraction := by
  unfold placesOf
  split
  · rename_i hzero
    rw [hzero]
    rfl
  · rw [Option.getD_some,
      takeD_dropTrailingZeros ((length_zeroPadded_eq_iff (by decide)).2 h)]
    exact digitsValue_zeroPadded 6 fraction

/-- Places do not end with a zero. -/
theorem getLast?_placesOf {fraction : Nat} {places : List Char}
    (h : placesOf fraction = some places) :
    ∃ c, places.getLast? = some c ∧ c.isDigit ∧ c ≠ '0' := by
  unfold placesOf at h
  split at h
  · cases h
  · rename_i hfraction
    obtain rfl := Option.some.inj h
    have hvalue : digitsValue (zeroPadded 6 fraction).toList ≠ 0 := by
      rwa [digitsValue_zeroPadded]
    obtain ⟨c, hmem, hlast, hne⟩ := getLast?_dropTrailingZeros (exists_ne_zero hvalue)
    exact ⟨c, hlast, isDigit_of_mem_zeroPadded hmem, hne⟩

/-- The decimal that is written of an amount of micro-units. -/
def Decimal.ofMicros (amount : Nat) : Decimal where
  whole := Nat.toDigits 10 (amount / scale)
  places := placesOf (amount % scale)
  whole_isDigit _ := isDigit_of_mem_toDigits
  places_isDigit _ := isDigit_of_mem_placesOf
  some_digit := .inl Nat.toDigits_ne_nil

/-- The decimal of an amount has its micro-units. -/
theorem micros_ofMicros (amount : Nat) : (Decimal.ofMicros amount).micros = amount := by
  have hwhole : Nat.ofDigitChars 10 (Nat.toDigits 10 (amount / scale)) 0 = amount / scale :=
    Nat.ofDigitChars_ten_toDigits
  have hplaces := digitsValue_placesOf (Nat.mod_lt amount (by decide : 0 < scale))
  have hmicros : (Decimal.ofMicros amount).micros =
      Nat.ofDigitChars 10 (Nat.toDigits 10 (amount / scale)) 0 * scale +
        digitsValue (((placesOf (amount % scale)).getD []).takeD 6 '0') := rfl
  rw [hmicros, hwhole, hplaces]
  exact Nat.div_add_mod' amount scale

/-- The sign that is written of an amount. -/
def Sign.ofAmount (amount : Int) : Sign := if amount < 0 then .minus else .none

/-- An amount is its magnitude with its sign. -/
theorem apply_ofAmount (amount : Int) : (Sign.ofAmount amount).apply amount.natAbs = amount := by
  unfold Sign.ofAmount
  split <;> simp only [Sign.apply] <;> omega

/-- An amount is written by its sign and its decimal. -/
theorem toList_format (amount : Int) : (format amount).toList =
    (Sign.ofAmount amount).text ++ (Decimal.ofMicros amount.natAbs).text := by
  have hsign : (if amount < 0 then "-" else "").toList = (Sign.ofAmount amount).text := by
    unfold Sign.ofAmount
    split <;> rfl
  by_cases hzero : amount.natAbs % scale = 0
  · have htext : (Decimal.ofMicros amount.natAbs).text =
        Nat.toDigits 10 (amount.natAbs / scale) := by
      simp only [Decimal.text, Decimal.ofMicros, placesOf, if_pos hzero]
    rw [htext, ← hsign, ← toList_toString, ← String.toList_append]
    simp only [format, if_pos hzero]
  · have htext : (Decimal.ofMicros amount.natAbs).text =
        Nat.toDigits 10 (amount.natAbs / scale) ++
          '.' :: dropTrailingZeros (zeroPadded 6 (amount.natAbs % scale)).toList := by
      simp only [Decimal.text, Decimal.ofMicros, placesOf, if_neg hzero]
    simp only [format, if_neg hzero]
    rw [htext, ← hsign, ← toList_toString, String.toList_append, String.toList_append,
      String.toList_append, String.toList_ofList, String.toList_ofList, List.append_assoc,
      List.append_assoc, List.singleton_append]

/-- A decimal that is worth something has a digit other than zero. -/
theorem exists_nonzero_digit {d : Decimal} (h : d.micros ≠ 0) :
    ∃ c ∈ d.text, c.isDigit ∧ c ≠ '0' := by
  by_cases hwhole : digitsValue d.whole = 0
  · have hplaces : digitsValue ((d.places.getD []).takeD 6 '0') ≠ 0 := by
      intro hzero
      have hmicros : d.micros = digitsValue d.whole * 10 ^ 6 +
          digitsValue ((d.places.getD []).takeD 6 '0') := rfl
      rw [hwhole, hzero] at hmicros
      exact h hmicros
    obtain ⟨c, hmem, hne⟩ := exists_ne_zero hplaces
    rw [takeD_zero_eq] at hmem
    rcases List.mem_append.1 hmem with hmem | hmem
    · have hc := List.mem_of_mem_take hmem
      refine ⟨c, ?_, d.places_isDigit c hc, hne⟩
      unfold Decimal.text
      cases hplaces : d.places with
      | none =>
          rw [hplaces] at hc
          cases hc
      | some places =>
          rw [hplaces] at hc
          exact List.mem_append_right _ (List.mem_cons_of_mem _ hc)
    · exact absurd (List.eq_of_mem_replicate hmem) hne
  · obtain ⟨c, hmem, hne⟩ := exists_ne_zero hwhole
    refine ⟨c, ?_, d.whole_isDigit c hmem, hne⟩
    unfold Decimal.text
    cases d.places with
    | none => exact hmem
    | some places => exact List.mem_append_left _ hmem

/-- What is written of an amount is tidy. -/
theorem tidy_format (amount : Int) : Tidy (format amount).toList := by
  rw [toList_format]
  constructor
  case minus =>
    intro rest h
    obtain ⟨first, others, htext, hhead⟩ := (Decimal.ofMicros amount.natAbs).head_text
    unfold Sign.ofAmount at h
    split at h
    · rename_i hnegative
      obtain rfl := (List.cons.inj h).2
      refine exists_nonzero_digit ?_
      rw [micros_ofMicros]
      omega
    · rw [Sign.text, List.nil_append, htext] at h
      obtain rfl := (List.cons.inj h).1
      exact absurd hhead (by decide)
  case point =>
    intro front back h
    have hsign : ∀ sign : Sign, '.' ∉ sign.text := by rintro (_ | _ | _) <;> decide
    cases hplaces : (Decimal.ofMicros amount.natAbs).places with
    | none =>
        -- The digits of the whole hold no point.
        have hpoint : '.' ∈ (Sign.ofAmount amount).text ++ (Decimal.ofMicros amount.natAbs).text :=
          h ▸ List.mem_append_right front List.mem_cons_self
        unfold Decimal.text at hpoint
        rw [hplaces] at hpoint
        rcases List.mem_append.1 hpoint with hpoint | hpoint
        · exact absurd hpoint (hsign _)
        · exact absurd ((Decimal.ofMicros _).whole_isDigit _ hpoint) (by decide)
    | some places =>
        obtain ⟨c, hc, hdigit, hne⟩ := getLast?_placesOf hplaces
        refine ⟨c, ?_, hdigit, hne⟩
        -- The text ends with the places, and so does what stands behind the point.
        have hlast := congrArg List.getLast? h
        unfold Decimal.text at hlast
        simp only [hplaces, List.getLast?_append, List.getLast?_cons, hc, Option.getD_some,
          Option.some_or] at hlast
        cases hback : back.getLast? with
        | none =>
            rw [hback, Option.getD_none] at hlast
            obtain rfl := Option.some.inj hlast
            exact absurd hdigit (by decide)
        | some last =>
            rw [hback, Option.getD_some] at hlast
            exact hlast.symm

/-- The decimal codec of amounts.

A text is read as an amount exactly if it writes the amount: between blank margins a sign or none
and a decimal, whose whole units and first six places are the magnitude, which is a 64-bit integer.
Every other text is refused. The text that is written of an amount reads back as the amount if its
magnitude is a 64-bit integer, so for every 64-bit integer but the least, whose text is refused.
This text is tidy: it does not end with a point or with a zero behind one, and it has a minus before
an amount other than zero only. -/
theorem decimal_codec :
    (∀ (s : String) (amount : Int), parse? s = some amount ↔ Writes s amount) ∧
    (∀ s : String, parse? s = none ↔ ¬ ∃ amount, Writes s amount) ∧
    (∀ amount : Int, parse? (format amount) =
      if minInt64 < amount ∧ amount ≤ maxInt64 then some amount else none) ∧
    parse? (format minInt64) = none ∧
    ∀ amount : Int, Tidy (format amount).toList := by
  have hnone : ∀ s : String, parse? s = none ↔ ¬ ∃ amount, Writes s amount := by
    intro s
    rw [← Option.isNone_iff_eq_none, ← Option.not_isSome, Bool.not_eq_true', ← Bool.not_eq_true,
      Option.isSome_iff_exists]
    exact not_congr (exists_congr fun _ => parse?_eq_some_iff)
  have hformat : ∀ amount : Int, parse? (format amount) =
      if minInt64 < amount ∧ amount ≤ maxInt64 then some amount else none := by
    intro amount
    have hmin : minInt64 = -(2 ^ 63) := rfl
    have hmax : maxInt64 = 2 ^ 63 - 1 := rfl
    have hblank : ∀ c ∈ ([] : List Char), isBlank c := nofun
    have hread := parseChars?_signed hblank hblank (Sign.ofAmount amount) (.ofMicros amount.natAbs)
    rw [List.nil_append, List.append_nil, ← toList_format, micros_ofMicros,
      apply_ofAmount] at hread
    refine hread.trans (if_congr ?_ rfl rfl)
    omega
  exact ⟨fun _ _ => parse?_eq_some_iff, hnone, hformat, hformat minInt64, tidy_format⟩

/-- Places after the sixth are cut. -/
example : parse? " +.1234567 " = some 123456 ∧ format 123456 = "0.123456" := by decide +kernel

end MarketReplay.Price
