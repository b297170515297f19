import MarketReplay.SortedMap
import MarketReplay.Symbol
import MarketReplay.Civil.Time

/-!
# Tracked securities

The record of a tracked symbol: its last price, whether it is selected, subscribed by hand, kept by
contracts on it, or held for some more resolutions.
-/

namespace MarketReplay

/-- The record of a tracked symbol. -/
structure Security where
  price : Option Int
  lastUpdate : Option DateTime
  active : Bool
  manual : Bool
  dependents : SortedSet Symbol
  holdSteps : Nat
  deriving DecidableEq

namespace Security

/-- The record of a symbol not heard of before. -/
def fresh : Security := ⟨none, none, false, false, .empty, 0⟩

instance : Inhabited Security := ⟨fresh⟩

/-- Whether a price other than zero is known. -/
def hasData (s : Security) : Bool :=
  match s.price with
  | none => false
  | some p => p != 0

/-- Whether the security receives data regardless of the selection. -/
def isSubscribed (s : Security) : Bool := s.manual || !s.dependents.isEmpty || 0 < s.holdSteps

/-- Whether the security is a member: selected or subscribed. -/
def isMember (s : Security) : Bool := s.active || s.isSubscribed

end Security

end MarketReplay
