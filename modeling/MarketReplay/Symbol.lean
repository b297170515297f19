import MarketReplay.Civil.Date

/-!
# Instrument identifiers

A symbol names an equity by its ticker or an option by its contract terms: the ticker of an equity
underlying, expiry, strike in micro-units, right and exercise style. A contract is never written on
another contract. Symbols are ordered with equities first, then by ticker and contract terms.
-/

namespace MarketReplay

/-- The market an instrument is listed on. -/
inductive Market where
  | usa
  deriving DecidableEq, Repr

/-- The kind of an instrument. -/
inductive SecurityType where
  | equity | option
  deriving DecidableEq, Repr

/-- The right that an option gives. -/
inductive OptionRight where
  | call | put
  deriving DecidableEq, Repr

/-- When an option may be exercised. -/
inductive OptionStyle where
  | american | european
  deriving DecidableEq, Repr

/-- Calls come before puts. -/
def OptionRight.rank : OptionRight → Nat
  | call => 0
  | put => 1

/-- American exercise comes before European. -/
def OptionStyle.rank : OptionStyle → Nat
  | american => 0
  | european => 1

/-- The terms of an option on an equity. -/
structure OptionContract where
  underlying : String
  expiry : Date
  strike : Int
  right : OptionRight
  style : OptionStyle
  deriving DecidableEq

/-- An instrument. -/
inductive Symbol where
  | equity (ticker : String)
  | option (contract : OptionContract)
  deriving DecidableEq

namespace OptionContract

/-- The order of contracts: underlying, expiry, strike, right, style. -/
def order : OptionContract → OptionContract → Ordering :=
  compareLex (compareOn underlying) <| compareLex (compareOn expiry) <|
    compareLex (compareOn strike) <| compareLex (compareOn fun c => c.right.rank)
      (compareOn fun c => c.style.rank)

instance : Ord OptionContract := ⟨order⟩

instance : Std.TransOrd OptionContract := inferInstanceAs (Std.TransCmp
  (compareLex (compareOn underlying) <| compareLex (compareOn expiry) <|
    compareLex (compareOn strike) <| compareLex (compareOn fun c => c.right.rank)
      (compareOn fun c => c.style.rank)))

instance : Std.LawfulEqOrd OptionContract where
  eq_of_compare {a b} h := by
    have h : order a b = .eq := h
    simp only [order, compareLex_eq_eq, compareOn, Std.compare_eq_iff_eq] at h
    obtain ⟨hu, he, hk, hr, hs⟩ := h
    obtain ⟨u, e, k, r, s⟩ := a
    obtain ⟨u', e', k', r', s'⟩ := b
    simp only at hu he hk hr hs
    subst hu he hk
    cases r <;> cases r' <;> simp [OptionRight.rank] at hr <;>
      cases s <;> cases s' <;> simp [OptionStyle.rank] at hs <;> rfl

end OptionContract

namespace Symbol

instance : Inhabited Symbol := ⟨equity ""⟩

/-- The order of symbols. -/
def order : Symbol → Symbol → Ordering
  | equity a, equity b => compare a b
  | equity _, option _ => .lt
  | option _, equity _ => .gt
  | option a, option b => compare a b

instance : Ord Symbol := ⟨order⟩

instance : Std.TransOrd Symbol where
  eq_swap {a b} :=
    match a, b with
    | equity a, equity b => (Std.OrientedCmp.eq_swap : compare a b = (compare b a).swap)
    | equity _, option _ => rfl
    | option _, equity _ => rfl
    | option a, option b => (Std.OrientedCmp.eq_swap : compare a b = (compare b a).swap)
  isLE_trans {a b c} hab hbc :=
    match a, b, c, hab, hbc with
    | equity a, equity b, equity c, hab, hbc =>
      have hab : (compare a b).isLE := hab
      have hbc : (compare b c).isLE := hbc
      have hac : (compare a c).isLE := Std.TransCmp.isLE_trans hab hbc
      hac
    | equity _, _, option _, _, _ => rfl
    | equity _, option _, equity _, _, hbc => absurd hbc (fun h => nomatch h)
    | option _, equity _, _, hab, _ => absurd hab (fun h => nomatch h)
    | option _, option _, equity _, _, hbc => absurd hbc (fun h => nomatch h)
    | option a, option b, option c, hab, hbc =>
      have hab : (compare a b).isLE := hab
      have hbc : (compare b c).isLE := hbc
      have hac : (compare a c).isLE := Std.TransCmp.isLE_trans hab hbc
      hac

instance : Std.LawfulEqOrd Symbol where
  eq_of_compare {a b} h :=
    match a, b, h with
    | equity _, equity _, h => congrArg equity (Std.LawfulEqOrd.eq_of_compare h)
    | equity _, option _, h => absurd h (fun h => nomatch h)
    | option _, equity _, h => absurd h (fun h => nomatch h)
    | option _, option _, h => congrArg option (Std.LawfulEqOrd.eq_of_compare h)

/-- Whether the symbol is a contract on another instrument. -/
def isDerivative : Symbol → Bool
  | equity _ => false
  | option _ => true

/-- The kind of the instrument. -/
def securityType : Symbol → SecurityType
  | equity _ => .equity
  | option _ => .option

/-- Every instrument is listed on the one market. -/
def market (_ : Symbol) : Market := .usa

/-- The ticker of the equity, or of the underlying of a contract. -/
def ticker : Symbol → String
  | equity t => t
  | option c => c.underlying

/-- The equity that a contract is written on. -/
def underlying? : Symbol → Option Symbol
  | equity _ => none
  | option c => some (equity c.underlying)

/-- The terms of a contract. -/
def contract? : Symbol → Option OptionContract
  | equity _ => none
  | option c => some c

/-- Units that one contract delivers. -/
def multiplier : Symbol → Int
  | equity _ => 1
  | option _ => 100

end Symbol

end MarketReplay
