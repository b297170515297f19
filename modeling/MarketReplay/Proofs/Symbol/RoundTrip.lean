import Mathlib.Algebra.Group.Int.Defs
import MarketReplay.Proofs.Civil.CompactDates
import MarketReplay.Proofs.Symbol.Reading

/-!
# Symbols written and read

The text of a symbol holds less than the symbol: of a contract it leaves out the style, the century
and what the strike has beyond whole thousandths. `Symbol.parse_text_iff` says which symbols are
read back from their text, and `Symbol.reread_iff` which texts read as such a symbol: of those that
read as an option, the ones with two digits in the columns of the year. A blank there is passed
over, and the year that is read then lies before the century.
-/

namespace MarketReplay.Symbol

open Text

/-! ### The text of a contract -/

/-- The first part of the text of a contract: the ticker, filled to six characters. -/
def rootText (c : OptionContract) : List Char := (padRight 6 ' ' c.underlying).toList

/-- The second part: two digits each of year, month and day. -/
def expiryText (c : OptionContract) : List Char :=
  (zeroPaddedInt 2 (c.expiry.year.tmod 100)).toList ++
    ((zeroPadded 2 c.expiry.month).toList ++ (zeroPadded 2 c.expiry.dayOfMonth).toList)

/-- The part behind the letter: the thousandths of the strike. -/
def strikeText (c : OptionContract) : List Char := (zeroPaddedInt 8 (c.strike.tdiv 1000)).toList

/-- The text of a contract is its parts. -/
theorem toList_contractText (c : OptionContract) :
    (contractText c).toList =
      rootText c ++ (expiryText c ++ rightLetter c.right :: strikeText c) := by
  simp [contractText, rootText, expiryText, strikeText, Date.month, Date.dayOfMonth,
    String.toList_append]

/-- The parts stand in their columns as long as the root and the expiry have six characters. -/
theorem columns {root expiry : List Char} (letter : Char) (strike : List Char)
    (hroot : root.length = 6) (hexpiry : expiry.length = 6) :
    (root ++ (expiry ++ letter :: strike)).take 6 = root ∧
      ((root ++ (expiry ++ letter :: strike)).drop 6).take 6 = expiry ∧
      (root ++ (expiry ++ letter :: strike))[12]? = some letter ∧
      (root ++ (expiry ++ letter :: strike)).drop 13 = strike := by
  refine ⟨List.take_left' hroot, ?_, ?_, ?_⟩
  · rw [List.drop_left' hroot, List.take_left' hexpiry]
  · rw [List.getElem?_append_right (by omega), List.getElem?_append_right (by omega), hroot, hexpiry]
    rfl
  · rw [List.drop_append, List.drop_append, hroot, hexpiry, List.drop_eq_nil_of_le (by omega),
      List.drop_eq_nil_of_le (by omega)]
    rfl

variable {c : OptionContract}

/-- A ticker leaves room for the fill. -/
theorem length_rootText (h : IsTicker c.underlying) : (rootText c).length = 6 := by
  have hle := h.2.1
  rw [rootText, padRight, String.toList_append, String.toList_ofList, List.length_append,
    List.length_replicate, String.length_toList]
  omega

/-- The fill is trimmed. -/
theorem trim_rootText (h : IsTicker c.underlying) : trim (rootText c) = c.underlying.toList := by
  rw [trim_eq_iff h.isBlank]
  refine ⟨[], List.replicate (6 - c.underlying.length) ' ', by simp, fun ch hch => ?_, ?_⟩
  · rw [List.eq_of_mem_replicate hch]
    rfl
  · rw [rootText, padRight, String.toList_append, String.toList_ofList, List.nil_append]

/-- The ticker and its fill are of the first 128 characters. -/
theorem toNat_lt_of_mem_rootText (h : IsTicker c.underlying) {ch : Char} (hch : ch ∈ rootText c) :
    ch.toNat < 128 := by
  rw [rootText, padRight, String.toList_append, String.toList_ofList, List.mem_append] at hch
  rcases hch with hch | hch
  · exact h.toNat_lt ch hch
  · rw [List.eq_of_mem_replicate hch]
    decide

/-- Digits are of the first 128 characters. -/
theorem toNat_lt_of_isDigit {ch : Char} (h : ch.isDigit) : ch.toNat < 128 :=
  Nat.lt_of_le_of_lt (Char.isDigit_iff_toNat.1 h).2 (by decide)

/-- A number below one hundred is written by two digits. -/
theorem two_digits {n : Nat} (h : n < 100) :
    (∀ ch ∈ (zeroPadded 2 n).toList, ch.isDigit) ∧ (zeroPadded 2 n).toList.length = 2 :=
  ⟨fun _ hch => isDigit_of_mem_zeroPadded hch, (length_zeroPadded_eq_iff (by decide)).2 h⟩

/-- The month and the day of a date are numbers below one hundred. -/
theorem month_lt (d : Date) : d.month < 100 ∧ d.dayOfMonth < 100 := by
  have hbounds := Date.bounds_of_ofCivil? d.ofCivil?_parts
  omega

/-- The strike of a contract that can be made is written by digits alone. -/
theorem strikeText_eq (h : 0 < c.strike) :
    strikeText c = (zeroPadded 8 (c.strike / 1000).natAbs).toList := by
  have hnonneg : ¬ c.strike.tdiv 1000 < 0 := by
    rw [Int.tdiv_eq_ediv_of_nonneg (by omega)]
    omega
  rw [strikeText, zeroPaddedInt, if_neg hnonneg, Int.tdiv_eq_ediv_of_nonneg (by omega)]

/-- The strike takes eight digits, and no more if it is below the bound. -/
theorem strikeText_spec (h : 0 < c.strike) :
    (∀ ch ∈ strikeText c, ch.isDigit) ∧ 8 ≤ (strikeText c).length ∧
      ((strikeText c).length = 8 ↔ c.strike < 10 ^ 11) ∧
      (digitsValue (strikeText c) : Int) = c.strike / 1000 := by
  have hlength := length_zeroPadded 8 (c.strike / 1000).natAbs
  have hexact := length_zeroPadded_eq_iff (n := (c.strike / 1000).natAbs)
    (by decide : 0 < 8)
  rw [strikeText_eq h, digitsValue_zeroPadded]
  refine ⟨fun _ hch => isDigit_of_mem_zeroPadded hch, ?_, ?_, ?_⟩
  · omega
  · rw [hexact]
    omega
  · omega

/-- The text of a contract ends with a digit, so nothing is trimmed on its right. -/
theorem trimRight_contractText (h : 0 < c.strike) :
    trimRight (contractText c).toList = (contractText c).toList := by
  obtain ⟨hdigits, hlength, -⟩ := strikeText_spec h
  rw [toList_contractText]
  rcases List.eq_nil_or_concat (strikeText c) with hnil | ⟨init, last, hlast⟩
  · rw [hnil] at hlength
    exact absurd hlength (by decide)
  · rw [List.concat_eq_append] at hlast
    rw [hlast] at hdigits ⊢
    rw [← List.cons_append, ← List.append_assoc, ← List.append_assoc]
    exact trimRight_concat (isBlank_of_isDigit (hdigits last List.mem_concat_self)) _

/-- The year takes two characters at least; without a sign it takes two digits. -/
theorem yearText_spec (year : Int) :
    2 ≤ (zeroPaddedInt 2 (year.tmod 100)).toList.length ∧
      (0 ≤ year → zeroPaddedInt 2 (year.tmod 100) = zeroPadded 2 (year % 100).toNat) := by
  unfold zeroPaddedInt
  constructor
  · split
    · have hlength := length_zeroPadded (2 - 1) (year.tmod 100).natAbs
      rw [String.toList_append, List.length_append, hlength]
      have hsign : "-".toList.length = 1 := rfl
      omega
    · have hlength := length_zeroPadded 2 (year.tmod 100).natAbs
      omega
  · intro h
    have hmod : year.tmod 100 = year % 100 := Int.tmod_eq_emod_of_nonneg h
    have hnat : (year % 100).natAbs = (year % 100).toNat := by omega
    rw [hmod, if_neg (by omega), hnat]

/-- The month and the day take four characters. -/
theorem length_expiryText (c : OptionContract) :
    (expiryText c).length = (zeroPaddedInt 2 (c.expiry.year.tmod 100)).toList.length + 4 := by
  obtain ⟨hmonth, hday⟩ := month_lt c.expiry
  rw [expiryText, List.length_append, List.length_append, (two_digits hmonth).2,
    (two_digits hday).2]

/-- Of a year without a sign, the expiry is six digits, the first two those of the year. -/
theorem expiryText_spec (h : 0 ≤ c.expiry.year) :
    (∀ ch ∈ expiryText c, ch.isDigit) ∧ (expiryText c).length = 6 := by
  obtain ⟨hmonth, hday⟩ := month_lt c.expiry
  have hyear := two_digits (n := (c.expiry.year % 100).toNat) (by omega)
  rw [length_expiryText, expiryText, (yearText_spec c.expiry.year).2 h, hyear.2]
  refine ⟨fun ch hch => ?_, rfl⟩
  rcases List.mem_append.1 hch with hch | hch
  · exact hyear.1 ch hch
  · rcases List.mem_append.1 hch with hch | hch
    · exact (two_digits hmonth).1 ch hch
    · exact (two_digits hday).1 ch hch

/-- An expiry in the century is read back. -/
theorem readDate?_expiryText (hfirst : 2000 ≤ c.expiry.year) (hlast : c.expiry.year ≤ 2099) :
    Civil.readDate? Civil.compactDatePattern ('2' :: '0' :: expiryText c) = some c.expiry := by
  obtain ⟨hmonth, hday⟩ := month_lt c.expiry
  rw [expiryText, (yearText_spec c.expiry.year).2 (by omega)]
  have hyear := two_digits (n := (c.expiry.year % 100).toNat) (by omega)
  have hvalue := digitsValue_append ['2', '0'] (zeroPadded 2 (c.expiry.year % 100).toNat).toList
  have hcentury : digitsValue ['2', '0'] = 20 ∧ ∀ ch ∈ ['2', '0'], ch.isDigit :=
    ⟨rfl, by simp [Char.isDigit]⟩
  rw [hyear.2, hcentury.1, digitsValue_zeroPadded] at hvalue
  generalize (zeroPadded 2 (c.expiry.year % 100).toNat).toList = year at hyear hvalue ⊢
  have hdigits : (∀ ch ∈ ['2', '0'] ++ year, ch.isDigit) ∧ (['2', '0'] ++ year).length = 4 := by
    refine ⟨fun ch hch => ?_, by rw [List.length_append, hyear.2]; rfl⟩
    exact (List.mem_append.1 hch).elim (hcentury.2 ch) (hyear.1 ch)
  refine Civil.readDate?_compact hdigits (two_digits hmonth) (two_digits hday) ?_
  have hvalue : (digitsValue (['2', '0'] ++ year) : Int) = c.expiry.year := by omega
  rw [hvalue, digitsValue_zeroPadded, digitsValue_zeroPadded]
  exact c.expiry.ofCivil?_parts

/-! ### Round trips -/

/-- What the text of a symbol tells: of an equity its ticker, and of an option an American one
with a year of the century and a strike of whole thousandths below the bound of eight digits. -/
def Recoverable : Symbol → Prop
  | equity t => IsTicker t
  | option c => c.style = .american ∧ 2000 ≤ c.expiry.year ∧ c.expiry.year ≤ 2099 ∧
      1000 ∣ c.strike ∧ c.strike < 10 ^ 11

instance (y : Symbol) : Decidable (Recoverable y) :=
  match y with
  | equity t => inferInstanceAs (Decidable (IsTicker t))
  | option _ => inferInstanceAs (Decidable (_ ∧ _ ∧ _ ∧ _ ∧ _))

/-- An equity is read back exactly if its text is a ticker. -/
theorem parse_ticker_iff (t : String) : parse t = .ok (equity t) ↔ Recoverable (equity t) := by
  rw [parse_eq_ok_equity_iff]
  constructor
  · rintro ⟨hticker, -⟩
    exact hticker
  · intro hticker
    have hticker : IsTicker t := hticker
    have hright := trimRight_eq_self hticker.isBlank
    refine ⟨hticker, ?_, ?_⟩
    · rw [hright, trim, trimLeft_eq_self hticker.isBlank, hright]
    · have hlength := hticker.2.1
      rw [trimmedRight, hright, utf8ByteSize_ofList hticker.toNat_lt, String.length_toList]
      omega

/-- A contract that can be made is read back exactly if its text tells its terms. -/
theorem parse_contractText_iff (hticker : IsTicker c.underlying) (hpos : 0 < c.strike) :
    parse (contractText c) = .ok (option c) ↔ Recoverable (option c) := by
  obtain ⟨hdigits, hlong, hexact, hvalue⟩ := strikeText_spec hpos
  have hroot := length_rootText hticker
  rw [parse_eq_ok_option_iff, trimRight_contractText hpos, toList_contractText]
  constructor
  · rintro ⟨hnames, hlength⟩
    have hyear := (yearText_spec c.expiry.year).1
    have hlengthExpiry := length_expiryText c
    simp only [List.length_append, List.length_cons] at hlength
    obtain ⟨-, hexpiryColumn, -, hstrikeColumn⟩ := columns (rightLetter c.right)
      (strikeText c) hroot (show (expiryText c).length = 6 by omega)
    have hread := hnames.expiry
    rw [hexpiryColumn] at hread
    obtain ⟨hcentury, hsign, hlast⟩ := Civil.century_le_year_iff (by omega) hread
    have hstrike := hnames.strike
    rw [hstrikeColumn] at hstrike
    refine ⟨hnames.style, hcentury.2 fun ch hch => ?_, hlast, ⟨_, hstrike.trans (Int.mul_comm _ _)⟩,
      hexact.1 (by omega)⟩
    exact (expiryText_spec hsign).1 ch (List.mem_of_mem_take hch)
  · rintro ⟨hstyle, hfirst, hlast, hdvd, hbound⟩
    obtain ⟨hexpiryDigits, hexpiry⟩ := expiryText_spec (c := c) (by omega)
    have hstrike := hexact.2 hbound
    obtain ⟨hrootColumn, hexpiryColumn, hletter, hstrikeColumn⟩ := columns
      (rightLetter c.right) (strikeText c) hroot hexpiry
    refine ⟨{
      ascii := ?_
      root := by rw [hrootColumn, trim_rootText hticker]
      ticker := hticker
      expiry := by rw [hexpiryColumn, readDate?_expiryText hfirst hlast]
      right := hletter
      digits := by rwa [hstrikeColumn]
      strike := by rw [hstrikeColumn]; omega
      strike_pos := hpos
      style := hstyle }, ?_⟩
    · intro ch hch
      rw [List.mem_append, List.mem_append, List.mem_cons] at hch
      rcases hch with hch | hch | rfl | hch
      · exact toNat_lt_of_mem_rootText hticker hch
      · exact toNat_lt_of_isDigit (hexpiryDigits ch hch)
      · cases c.right <;> decide
      · exact toNat_lt_of_isDigit (hdigits ch hch)
    · rw [List.length_append, List.length_append, List.length_cons, hroot, hexpiry, hstrike]

/-- The symbols that can be made: the equity of any text, and the options that pass the checks. -/
inductive Made : Symbol → Prop
  | equity (t : String) : Made (equity t)
  | option {underlying : Symbol} {expiry : Date} {strike : Int} {right : OptionRight}
    {style : OptionStyle} {y : Symbol} (h : optionOn underlying expiry strike right style = .ok y) :
    Made y

/-- A symbol that can be made is read back from its text exactly if its text tells all of it. -/
theorem parse_text_iff {y : Symbol} (h : Made y) : parse y.text = .ok y ↔ Recoverable y := by
  cases h with
  | equity t => exact parse_ticker_iff t
  | option h =>
      obtain ⟨t, -, hticker, hpos, rfl⟩ := optionOn_eq_ok_iff.1 h
      exact parse_contractText_iff hticker hpos

/-- The call of 2014-06-21 on an equity. -/
def sampleCall (style : OptionStyle) : Symbol :=
  option ⟨"AAPL", Date.civil 2014 6 21, 650000000, .call, style⟩

/-- Of two contracts with one text, the American one is read back and the European one is not. -/
theorem only_american_call_read_back :
    (∀ style, Made (sampleCall style)) ∧
      parse (sampleCall .american).text = .ok (sampleCall .american) ∧
      parse (sampleCall .european).text ≠ .ok (sampleCall .european) := by
  have hmade : ∀ style, Made (sampleCall style) := fun style =>
    @Made.option (equity "AAPL") (Date.civil 2014 6 21) 650000000 .call style _ rfl
  exact ⟨hmade, (parse_text_iff (hmade .american)).2 (by decide),
    mt (parse_text_iff (hmade .european)).1 (by decide)⟩

/-- What a text reads as is read back from its own text, but for an option read of a text without
two digits in the columns of the year. -/
theorem reread_iff {s : String} {y : Symbol} (h : parse s = .ok y) :
    parse y.text = .ok y ↔
      (y.isDerivative → ∀ ch ∈ ((trimRight s.toList).drop 6).take 2, ch.isDigit) := by
  cases y with
  | equity t =>
      obtain ⟨hticker, -⟩ := parse_eq_ok_equity_iff.1 h
      have hback : parse (equity t).text = .ok (equity t) := (parse_ticker_iff t).2 hticker
      simp [hback, isDerivative]
  | option c =>
      obtain ⟨hnames, hlength⟩ := parse_eq_ok_option_iff.1 h
      have hcolumn : 2 ≤ (((trimRight s.toList).drop 6).take 6).length := by
        rw [List.length_take, List.length_drop, hlength]
        decide
      obtain ⟨hcentury, -, hlast⟩ := Civil.century_le_year_iff hcolumn hnames.expiry
      rw [List.take_take, Nat.min_eq_left (by decide : 2 ≤ 6)] at hcentury
      have hdigits : (trimRight s.toList |>.drop 13).length = 8 := by
        rw [List.length_drop, hlength]
      have hbound := digitsValue_lt hnames.digits
      have hstrike := hnames.strike
      rw [hdigits] at hbound
      have hback := parse_contractText_iff hnames.ticker hnames.strike_pos
      have htext : (option c).text = contractText c := rfl
      rw [htext, hback, ← hcentury]
      constructor
      · rintro ⟨-, hfirst, -⟩ -
        exact hfirst
      · intro hfirst
        exact ⟨hnames.style, hfirst rfl, hlast, ⟨_, hstrike.trans (Int.mul_comm _ _)⟩, by omega⟩

/-- A blank in the columns of the year is passed over, and the option that is read lies in the year
201; its own text has the digits 01 there and reads as another one. -/
theorem blank_year_misread :
    ∃ y, parse "AAPL  1 0621C00650000" = .ok y ∧ y.text = "AAPL  010621C00650000" ∧
      parse y.text ≠ .ok y := by
  have hread : parse "AAPL  1 0621C00650000" =
      .ok (option ⟨"AAPL", Date.civil 201 6 21, 650000000, .call, .american⟩) := by decide +kernel
  refine ⟨_, hread, by decide +kernel, mt (reread_iff hread).1 fun hdigits => ?_⟩
  have hblank : ' ' ∈ ((trimRight "AAPL  1 0621C00650000".toList).drop 6).take 2 := by
    decide +kernel
  exact absurd (hdigits rfl ' ' hblank) (by decide)

end MarketReplay.Symbol
