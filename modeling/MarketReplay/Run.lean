import MarketReplay.Clock
import MarketReplay.Run.State
import MarketReplay.Strategy.Host

/-!
# Runs

An engine is made of validated settings, a selector, price series and contract listings, and a host
for one strategy. Its run takes every step of the clock and samples the portfolio after the last
step of each date; a callback that fails stops it.
-/

namespace MarketReplay

/-- Why a run does not come to a result. -/
inductive RunError where
  | configuration (error : ConfigurationError)
  | host (error : HostError)
  | offset (overflow : OffsetOverflow)

/-- The text of the error. -/
def RunError.message : RunError → String
  | configuration e => "configuration error: " ++ e.message
  | host e => "strategy host error: " ++ e.message
  | offset o => "schedule offset out of range: " ++ toString o.minutes

/-- A run in progress: its state, the steps and samples taken, and the failure if one stopped it. -/
structure RunProgress (S : Strategy) (sel : Selector) where
  state : RunState S sel
  steps : Nat
  curve : List EquityPoint
  failure : Option RunFailure

namespace RunProgress

variable {S : Strategy} {sel : Selector}

/-- Whether the clock has no instant left on a date. -/
def dayEnds (clock : Clock) (date : Date) : Bool :=
  match clock.peek with
  | none => true
  | some next => next.date != date

/-- The progress after one step; `clock` is what is left of the clock. -/
def step (p : RunProgress S sel) (clock : Clock) (now : Instant) :
    Except OffsetOverflow (RunProgress S sel) :=
  match p.state.step now with
  | .error o => .error o
  | .ok (state, some failure) => .ok ⟨state, p.steps + 1, p.curve, some failure⟩
  | .ok (state, none) =>
    .ok ⟨state, p.steps + 1,
      if dayEnds clock now.date then p.curve ++ [state.equityPoint now.date] else p.curve, none⟩

/-- The progress after the steps of a clock, at most `fuel` of them. -/
def loop : (fuel : Nat) → Clock → RunProgress S sel → Except OffsetOverflow (RunProgress S sel)
  | 0, _, p => .ok p
  | fuel + 1, clock, p =>
    if p.failure.isSome then .ok p
    else
      match clock.advance with
      | (none, _) => .ok p
      | (some now, rest) =>
        match p.step rest now with
        | .error o => .error o
        | .ok p' => loop fuel rest p'

end RunProgress

/-- A configured run. -/
structure Engine where
  settings : RunSettings
  selector : Selector
  prices : SeriesLookup
  contracts : ContractLookup
  host : StrategyHost

namespace Engine

/-- The engine of settings and a selector; settings are checked first. -/
def configure (settings : RunSettings) (selector : Option Selector) (prices : SeriesLookup)
    (contracts : ContractLookup) : Except ConfigurationError Engine :=
  match settings.validate, selector with
  | .error e, _ => .error e
  | .ok (), none => .error .missingSelector
  | .ok (), some s =>
    if s.isEmpty then .error .emptySelector
    else .ok ⟨settings, s, prices, contracts, .empty⟩

/-- The engine with a strategy registered. -/
def addStrategy (e : Engine) (s : Strategy) : Except HostError Engine :=
  (e.host.register s).map fun host => { e with host }

/-- The result of a run that came to its end. -/
def result (e : Engine) (S : Strategy) (p : RunProgress S e.selector) : RunResult :=
  let portfolio := p.state.kernel.portfolio
  { replayId := replayId S.spec.name e.settings
    strategy := S.spec.name
    settings := e.settings
    finalCash := portfolio.cash
    realized := portfolio.realized
    holdings := (portfolio.holdings.entries.filter fun h => !h.2.isFlat).map fun h =>
      ⟨h.1, h.2.quantity, h.2.averagePrice⟩
    orders := p.state.kernel.book.orders
    orderEvents := p.state.delivered ++ p.state.kernel.book.drain.1
    changes := p.state.merged
    equityCurve := p.curve
    warnings := p.state.kernel.book.warnings
    steps := p.steps
    failure := p.failure }

/-- The progress of a strategy that is initialized. -/
def begin (e : Engine) (S : Strategy) : RunProgress S e.selector :=
  let start := RunState.start S e.selector e.settings e.prices e.contracts
  let (state, failure) := start.launch (.startOf e.settings.start e.settings.resolution)
  ⟨state, 0, [], failure⟩

/-- The clock of a run. -/
def clock (e : Engine) : Except RunError Clock :=
  match Clock.spanning e.settings.start e.settings.stop e.settings.resolution with
  | .error _ => .error (.configuration (.invalidDateRange e.settings.start e.settings.stop))
  | .ok clock => .ok clock

/-- The number of steps of the clock. -/
def span (e : Engine) : Nat :=
  match e.clock with
  | .error _ => 0
  | .ok clock => clock.remaining

/-- The progress of a run after its first steps, at most `steps` of them. -/
def after (e : Engine) (S : Strategy) (steps : Nat) : Except RunError (RunProgress S e.selector) :=
  match StrategyHost.checkSpec S.spec e.settings.resolution with
  | .error h => .error (.host h)
  | .ok () =>
    match e.clock with
    | .error failure => .error failure
    | .ok clock =>
      match RunProgress.loop steps clock (e.begin S) with
      | .error o => .error (.offset o)
      | .ok p => .ok p

/-- The whole run of a strategy. -/
def progress (e : Engine) (S : Strategy) : Except RunError (RunProgress S e.selector) :=
  e.after S e.span

/-- The run of the registered strategy. -/
def run (e : Engine) : Except RunError RunResult :=
  match e.host.strategy with
  | .error h => .error (.host h)
  | .ok S => (e.progress S).map (e.result S)

/-- The description of what a run is configured from. -/
def configDescription (settings : RunSettings) (selector : Option Selector) : String :=
  RunSettings.described "BacktestConfig"
    [("settings", settings.description),
     ("selector", if selector.isSome then "Some(\"..\")" else "None")]

/-- The description of an engine. -/
def description (e : Engine) : String :=
  "BacktestEngine \x7b settings: " ++ e.settings.description ++ ", strategy_registered: " ++
    (if e.host.isRegistered then "true" else "false") ++ ", .. \x7d"

end Engine

end MarketReplay
