import MarketReplay.Strategy

/-!
# The strategy host

A host runs one strategy; a second registration is refused.
-/

namespace MarketReplay

/-- Why a host refuses. -/
inductive HostError where
  | multiStrategyNotAllowed
  | noStrategyRegistered
  | resolutionMismatch (expected got : Resolution)
  deriving DecidableEq

/-- The text of the error. -/
def HostError.message : HostError → String
  | multiStrategyNotAllowed => "only one strategy may be registered"
  | noStrategyRegistered => "no strategy registered"
  | resolutionMismatch expected got =>
    "strategy expects " ++ expected.name ++ " resolution, run uses " ++ got.name

/-- At most one strategy. -/
structure StrategyHost where
  registered : Option Strategy

namespace StrategyHost

/-- The host without a strategy. -/
def empty : StrategyHost := ⟨none⟩

/-- The host with a strategy. -/
def register (h : StrategyHost) (s : Strategy) : Except HostError StrategyHost :=
  match h.registered with
  | some _ => .error .multiStrategyNotAllowed
  | none => .ok ⟨some s⟩

/-- Whether a strategy is registered. -/
def isRegistered (h : StrategyHost) : Bool := h.registered.isSome

/-- The registered strategy. -/
def strategy (h : StrategyHost) : Except HostError Strategy :=
  match h.registered with
  | some s => .ok s
  | none => .error .noStrategyRegistered

/-- The name and resolution of the registered strategy. -/
def spec (h : StrategyHost) : Except HostError StrategySpec :=
  match h.registered with
  | some s => .ok s.spec
  | none => .error .noStrategyRegistered

/-- Whether a strategy of a specification can run at a resolution. -/
def checkSpec (spec : StrategySpec) (resolution : Resolution) : Except HostError Unit :=
  match spec.resolution with
  | none => .ok ()
  | some expected =>
    if expected = resolution then .ok () else .error (.resolutionMismatch expected resolution)

/-- Whether the registered strategy can run at a resolution. -/
def checkResolution (h : StrategyHost) (resolution : Resolution) : Except HostError Unit :=
  match h.spec with
  | .error e => .error e
  | .ok spec => checkSpec spec resolution

end StrategyHost

end MarketReplay
