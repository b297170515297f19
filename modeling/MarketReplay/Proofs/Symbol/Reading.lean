import MarketReplay.Proofs.Text.Margins
import MarketReplay.Symbol.Text

/-!
# What reads as a symbol

A text reads as an equity exactly if it is a ticker between blank margins and has not the length of
an option text, and as an option exactly if it has that length and its root, date, letter and
strike read each for itself (`Symbol.parse_eq_ok_iff`).
-/

namespace MarketReplay

namespace Text

/-- Characters of the first 128 take one byte each. -/
theorem utf8ByteSize_ofList {cs : List Char} (h : ∀ c ∈ cs, c.toNat < 128) :
    (String.ofList cs).utf8ByteSize = cs.length := by
  induction cs with
  | nil => rfl
  | cons c rest ih =>
      have hsize : c.utf8Size = 1 := by
        have hlt := h c List.mem_cons_self
        rw [Char.utf8Size_eq_one_iff, UInt32.le_iff_toNat_le]
        exact Nat.le_of_lt_succ hlt
      rw [String.ofList_cons, String.utf8ByteSize_append, String.utf8ByteSize_singleton, hsize,
        ih fun d hd => h d (List.mem_cons_of_mem c hd), List.length_cons, Nat.add_comm]

end Text

namespace Symbol

open Text

/-! ### Tickers -/

/-- A text of one to six characters of the ticker alphabet. -/
def IsTicker (t : String) : Prop :=
  1 ≤ t.length ∧ t.length ≤ 6 ∧ ∀ c ∈ t.toList, isTickerChar c

instance (t : String) : Decidable (IsTicker t) := inferInstanceAs (Decidable (_ ∧ _ ∧ _))

/-- The characters of tickers are visible ones of the first 128. -/
theorem toNat_of_isTickerChar {c : Char} (h : isTickerChar c) : 0x20 < c.toNat ∧ c.toNat < 0x7f := by
  have hclass : (c.isUpper || c.isLower || c.isDigit || c == '.') = true := h
  simp only [Bool.or_eq_true, beq_iff_eq] at hclass
  have hrange : ∀ low high : Char, 0x20 < low.toNat → high.toNat < 0x7f →
      low.val ≤ c.val ∧ c.val ≤ high.val → 0x20 < c.toNat ∧ c.toNat < 0x7f := by
    rintro low high hlow hhigh ⟨habove, hbelow⟩
    exact ⟨Nat.lt_of_lt_of_le hlow (UInt32.le_iff_toNat_le.1 habove),
      Nat.lt_of_le_of_lt (UInt32.le_iff_toNat_le.1 hbelow) hhigh⟩
  rcases hclass with ((hupper | hlower) | hdigit) | rfl
  · exact hrange 'A' 'Z' (by decide) (by decide) (of_decide_eq_true hupper)
  · exact hrange 'a' 'z' (by decide) (by decide)
      ((Bool.and_eq_true_iff.1 hlower).imp of_decide_eq_true of_decide_eq_true)
  · exact hrange '0' '9' (by decide) (by decide)
      ((Bool.and_eq_true_iff.1 hdigit).imp of_decide_eq_true of_decide_eq_true)
  · decide

/-- Tickers hold no blanks. -/
theorem IsTicker.isBlank {t : String} (h : IsTicker t) : ∀ c ∈ t.toList, isBlank c = false := by
  intro c hc
  obtain ⟨hlow, hhigh⟩ := toNat_of_isTickerChar (h.2.2 c hc)
  exact isBlank_of_visible hlow hhigh

/-- Tickers are of the first 128 characters. -/
theorem IsTicker.toNat_lt {t : String} (h : IsTicker t) : ∀ c ∈ t.toList, c.toNat < 128 := by
  intro c hc
  obtain ⟨-, hhigh⟩ := toNat_of_isTickerChar (h.2.2 c hc)
  omega

/-- Tickers are what the check of a ticker passes. -/
theorem checkTicker_eq_ok_iff {t : String} : checkTicker t = .ok () ↔ IsTicker t := by
  unfold checkTicker IsTicker
  have hempty : t.isEmpty ↔ t.length = 0 := by
    rw [String.isEmpty_iff, String.length_eq_zero_iff]
  have hbytes : (∀ c ∈ t.toList, isTickerChar c) → t.utf8ByteSize = t.length := by
    intro hchars
    have hascii : ∀ c ∈ t.toList, c.toNat < 128 := fun c hc =>
      Nat.lt_of_lt_of_le (toNat_of_isTickerChar (hchars c hc)).2 (by decide)
    have hsize := utf8ByteSize_ofList hascii
    rwa [String.ofList_toList, String.length_toList] at hsize
  split
  · rename_i h
    rw [hempty] at h
    simp [h]
  · rename_i h
    rw [hempty] at h
    split
    · rename_i hbad
      simp only [Bool.or_eq_true, decide_eq_true_eq, Bool.not_eq_true', List.all_eq_false] at hbad
      simp only [reduceCtorEq, false_iff, not_and]
      rintro - hlength hchars
      rcases hbad with hlong | ⟨c, hc, hbad⟩
      · rw [hbytes hchars] at hlong
        omega
      · exact hbad (hchars c hc)
    · rename_i hgood
      simp only [Bool.or_eq_true, decide_eq_true_eq, Bool.not_eq_true', not_or, Bool.not_eq_false,
        List.all_eq_true] at hgood
      obtain ⟨hlength, hchars⟩ := hgood
      rw [hbytes hchars] at hlength
      simp only [true_iff]
      exact ⟨by omega, by omega, hchars⟩

/-- Without its margins, the text of an equity is a ticker. -/
theorem parseEquity_eq_ok_iff {cs : List Char} {y : Symbol} :
    parseEquity cs = .ok y ↔ ∃ t, IsTicker t ∧ trim cs = t.toList ∧ y = equity t := by
  unfold parseEquity
  simp only
  split
  · rename_i hempty
    rw [String.isEmpty_iff] at hempty
    simp only [reduceCtorEq, false_iff, not_exists, not_and]
    rintro t hticker htrim
    rw [htrim, String.ofList_toList] at hempty
    rw [hempty] at hticker
    exact absurd hticker.1 (by decide)
  · constructor
    · intro h
      cases hcheck : checkTicker (String.ofList (trim cs)) with
      | error e =>
          rw [hcheck] at h
          cases h
      | ok _ =>
          rw [hcheck] at h
          cases h
          exact ⟨_, checkTicker_eq_ok_iff.1 hcheck, String.toList_ofList.symm, rfl⟩
    · rintro ⟨t, hticker, htrim, rfl⟩
      rw [htrim, String.ofList_toList, checkTicker_eq_ok_iff.2 hticker]
      rfl

/-! ### Contracts -/

/-- An option is made on an equity with a ticker, for a positive strike. -/
theorem optionOn_eq_ok_iff {underlying : Symbol} {expiry : Date} {strike : Int}
    {right : OptionRight} {style : OptionStyle} {y : Symbol} :
    optionOn underlying expiry strike right style = .ok y ↔
      ∃ t, underlying = equity t ∧ IsTicker t ∧ 0 < strike ∧
        y = option ⟨t, expiry, strike, right, style⟩ := by
  cases underlying with
  | option c => simp [optionOn]
  | equity t =>
      constructor
      · intro h
        cases hcheck : checkTicker t with
        | error e =>
            simp only [optionOn, hcheck] at h
            cases h
        | ok _ =>
            simp only [optionOn, hcheck] at h
            change (if strike ≤ 0 then _ else _) = _ at h
            split at h
            · cases h
            · rename_i hstrike
              cases h
              exact ⟨t, rfl, checkTicker_eq_ok_iff.1 hcheck, Int.not_le.1 hstrike, rfl⟩
      · rintro ⟨_, ⟨⟩, hticker, hstrike, rfl⟩
        simp only [optionOn, checkTicker_eq_ok_iff.2 hticker]
        exact if_neg (Int.not_le.2 hstrike)

/-- The letters of the rights are read as these. -/
theorem rightOfLetter?_eq_some_iff {c : Char} {right : OptionRight} :
    rightOfLetter? c = some right ↔ c = rightLetter right := by
  constructor
  · intro h
    unfold rightOfLetter? at h
    split at h
    all_goals cases h
    all_goals rfl
  · rintro rfl
    cases right <;> rfl

/-- The terms of an option text are a date behind the century, a letter and digits. -/
theorem parseTerms?_eq_some_iff {terms : List Char} {expiry : Date} {right : OptionRight}
    {strike : Int} :
    parseTerms? terms = some (expiry, right, strike) ↔
      Civil.readDate? Civil.compactDatePattern ('2' :: '0' :: terms.take 6) = some expiry ∧
        terms[6]? = some (rightLetter right) ∧ (∀ c ∈ terms.drop 7, c.isDigit) ∧
        strike = digitsValue (terms.drop 7) * 1000 := by
  simp only [parseTerms?, bind, Option.bind_eq_some_iff, rightOfLetter?_eq_some_iff]
  constructor
  · rintro ⟨expiry', hexpiry, letter, hletter, right', rfl, h⟩
    split at h
    · rename_i hdigits
      cases h
      exact ⟨hexpiry, hletter, List.all_eq_true.1 hdigits, rfl⟩
    · cases h
  · rintro ⟨hexpiry, hletter, hdigits, rfl⟩
    exact ⟨expiry, hexpiry, _, hletter, right, rfl, if_pos (List.all_eq_true.2 hdigits)⟩

/-- Whether an option text names a contract: its first six characters the underlying, the next six
the expiry behind the century, one the right and the others the strike in thousandths. -/
structure Names (raw : List Char) (c : OptionContract) : Prop where
  ascii : ∀ ch ∈ raw, ch.toNat < 128
  root : trim (raw.take 6) = c.underlying.toList
  ticker : IsTicker c.underlying
  expiry : Civil.readDate? Civil.compactDatePattern ('2' :: '0' :: (raw.drop 6).take 6) =
    some c.expiry
  right : raw[12]? = some (rightLetter c.right)
  digits : ∀ ch ∈ raw.drop 13, ch.isDigit
  strike : c.strike = digitsValue (raw.drop 13) * 1000
  strike_pos : 0 < c.strike
  style : c.style = .american

/-- An option text reads as the contract that it names. -/
theorem parseOption_eq_ok_iff {raw : List Char} {y : Symbol} :
    parseOption raw = .ok y ↔ ∃ c, y = option c ∧ Names raw c := by
  have hterms := @parseTerms?_eq_some_iff (raw.drop 6)
  simp only [List.getElem?_drop, List.drop_drop] at hterms
  unfold parseOption
  simp only
  split
  · rename_i hascii
    simp only [Bool.not_eq_true', List.all_eq_false, decide_eq_true_eq] at hascii
    obtain ⟨ch, hmem, hhigh⟩ := hascii
    simp only [reduceCtorEq, false_iff, not_exists, not_and]
    exact fun c _ hnames => hhigh (hnames.ascii ch hmem)
  · rename_i hascii
    simp only [Bool.not_eq_true', Bool.not_eq_false, List.all_eq_true, decide_eq_true_eq] at hascii
    constructor
    · intro h
      split at h
      · cases h
      · rename_i expiry right strike hparse
        obtain ⟨hexpiry, hletter, hdigits, hstrike⟩ := hterms.1 hparse
        cases hroot : parseEquity (raw.take 6) with
        | error e =>
            rw [hroot] at h
            cases h
        | ok underlying =>
            rw [hroot] at h
            obtain ⟨t, hticker, htrim, rfl⟩ := parseEquity_eq_ok_iff.1 hroot
            have hoption : optionOn (equity t) expiry strike right .american = .ok y := h
            obtain ⟨_, ⟨⟩, -, hpos, rfl⟩ := optionOn_eq_ok_iff.1 hoption
            exact ⟨_, rfl, {
              ascii := hascii
              root := htrim
              ticker := hticker
              expiry := hexpiry
              right := hletter
              digits := hdigits
              strike := hstrike
              strike_pos := hpos
              style := rfl }⟩
    · rintro ⟨c, rfl, h⟩
      rw [hterms.2 ⟨h.expiry, h.right, h.digits, h.strike⟩]
      simp only
      rw [parseEquity_eq_ok_iff.2 ⟨c.underlying, h.ticker, h.root, rfl⟩]
      refine optionOn_eq_ok_iff.2 ⟨c.underlying, rfl, h.ticker, h.strike_pos, ?_⟩
      rw [← h.style]

/-! ### Symbols -/

/-- A text that begins with a ticker is not blank. -/
theorem not_all_isBlank_of_trim {cs : List Char} {t : String} (hticker : IsTicker t)
    (htrim : trim cs = t.toList) : cs.all isBlank = false := by
  rw [← Bool.not_eq_true, ← trim_eq_nil_iff, htrim]
  intro hnil
  have hlength := hticker.1
  rw [← String.length_toList, hnil] at hlength
  exact absurd hlength (by decide)

/-- The texts that read as an equity. -/
theorem parse_eq_ok_equity_iff {s t : String} :
    parse s = .ok (equity t) ↔ IsTicker t ∧ trim (trimRight s.toList) = t.toList ∧
      (trimmedRight s).utf8ByteSize ≠ 21 := by
  unfold parse trimmedRight
  simp only
  constructor
  · intro h
    split at h
    · cases h
    · split at h
      · obtain ⟨c, ⟨⟩, -⟩ := parseOption_eq_ok_iff.1 h
      · rename_i hbytes
        obtain ⟨_, hticker, htrim, ⟨⟩⟩ := parseEquity_eq_ok_iff.1 h
        exact ⟨hticker, htrim, hbytes⟩
  · rintro ⟨hticker, htrim, hbytes⟩
    rw [not_all_isBlank_of_trim hticker htrim, if_neg (by decide), if_neg hbytes]
    exact parseEquity_eq_ok_iff.2 ⟨t, hticker, htrim, rfl⟩

/-- The texts that read as an option. -/
theorem parse_eq_ok_option_iff {s : String} {c : OptionContract} :
    parse s = .ok (option c) ↔
      Names (trimRight s.toList) c ∧ (trimRight s.toList).length = 21 := by
  unfold parse
  simp only
  constructor
  · intro h
    split at h
    · cases h
    · split at h
      · rename_i hbytes
        obtain ⟨_, ⟨⟩, hnames⟩ := parseOption_eq_ok_iff.1 h
        rw [utf8ByteSize_ofList hnames.ascii] at hbytes
        exact ⟨hnames, hbytes⟩
      · obtain ⟨_, -, -, ⟨⟩⟩ := parseEquity_eq_ok_iff.1 h
  · rintro ⟨hnames, hlength⟩
    have hblank : (trimRight s.toList).all isBlank = false := by
      have hroot := not_all_isBlank_of_trim hnames.ticker hnames.root
      rw [List.all_eq_false] at hroot ⊢
      obtain ⟨ch, hmem, hvisible⟩ := hroot
      exact ⟨ch, List.mem_of_mem_take hmem, hvisible⟩
    rw [hblank, if_neg (by decide), utf8ByteSize_ofList hnames.ascii, if_pos hlength]
    exact parseOption_eq_ok_iff.2 ⟨c, rfl, hnames⟩

end Symbol

end MarketReplay
