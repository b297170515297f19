import MarketReplay.Run

/-!
# Runs in range

A program stops where a sum or product does not fit its width. A run is in range if no callback, no
fill and no sample of it forms such a result; only then it comes to what `Engine.run` says
(`Engine.checkedRun`).
-/

namespace MarketReplay

namespace RunState

variable {S : Strategy} {sel : Selector}

/-- Whether a callback is in range. -/
def callInRange (r : RunState S sel) (now : Instant)
    (program : S.State → Program S.Code (Outcome S.State)) : Bool :=
  (program r.strategy).inRange now r.kernel

/-- Whether the fill of an event is booked in range. -/
def applyFillInRange (p : Portfolio) (e : OrderEvent) : Bool :=
  match e.fillPrice with
  | none => true
  | some price =>
    fitsInt64 e.quantity.natAbs && p.applyInRange (.ofSigned e.symbol e.quantity price)

/-- Whether the fills of events are booked in range, one after another. -/
def fillsInRange : List OrderEvent → Portfolio → Bool
  | [], _ => true
  | e :: rest, p => applyFillInRange p e && fillsInRange rest (applyFill p e)

/-- Whether the part of the market in a step is in range. -/
def marketInRange (r : RunState S sel) (now : Instant) : Bool :=
  let (_, resolved) := r.resolve now
  let (slice, observed) := resolved.observe now
  fillsInRange (observed.kernel.book.evaluate now slice).1 observed.kernel.portfolio

/-- Whether the strategy is told of changes and given a slice in range, up to the first callback
that fails. -/
def notifyInRange (r : RunState S sel) (now : Instant) (changes : Changes) (slice : DataSlice) :
    Bool :=
  (changes.isEmpty || r.callInRange now fun state => S.onSecuritiesChanged state changes) &&
    match r.notifyChanges now changes with
    | (_, some _) => true
    | (r', none) => slice.isEmpty || r'.callInRange now fun state => S.onData state slice

/-- Whether a delivery is in range. -/
def deliverInRange (r : RunState S sel) (now : Instant) : Delivery → Bool
  | .event e => r.callInRange now fun state => S.onOrderEvent state e
  | .fire due => r.callInRange now (r.scheduler.fire S due)

/-- Whether deliveries in turn are in range, up to the first that fails. -/
def deliverAllInRange (now : Instant) : List Delivery → RunState S sel → Bool
  | [], _ => true
  | d :: rest, r =>
    r.deliverInRange now d &&
      match r.deliver now d with
      | (_, some _) => true
      | (r', none) => deliverAllInRange now rest r'

/-- Whether the dispatch of undelivered events and due schedules is in range. -/
def dispatchInRange (r : RunState S sel) (now : Instant) : Bool :=
  let (events, book) := r.kernel.book.drain
  match r.scheduler.due now.time with
  | .error _ => true
  | .ok (due, scheduler) =>
    deliverAllInRange now (interleave events due)
      { r with kernel := { r.kernel with book }, scheduler }

/-- Whether a step is in range. -/
def stepInRange (r : RunState S sel) (now : Instant) : Bool :=
  let (changes, slice, matched) := r.market now
  r.marketInRange now && matched.notifyInRange now changes slice &&
    match matched.notify now changes slice with
    | (_, some _) => true
    | (r', none) => r'.dispatchInRange now

end RunState

namespace RunProgress

variable {S : Strategy} {sel : Selector}

/-- Whether the sample after a step is in range, if one is taken; `clock` is what is left of the
clock. -/
def sampleInRange (p : RunProgress S sel) (clock : Clock) (now : Instant) : Bool :=
  p.failure.isSome || !dayEnds clock now.date ||
    p.state.kernel.portfolio.equityInRange p.state.marks.get?

/-- Whether the steps of a clock are in range, at most `fuel` of them. -/
def loopInRange : (fuel : Nat) → Clock → RunProgress S sel → Bool
  | 0, _, _ => true
  | fuel + 1, clock, p =>
    if p.failure.isSome then true
    else
      match clock.advance with
      | (none, _) => true
      | (some now, rest) =>
        p.state.stepInRange now &&
          match p.step rest now with
          | .error _ => true
          | .ok p' => p'.sampleInRange rest now && loopInRange fuel rest p'

end RunProgress

namespace Engine

/-- Whether the run of a strategy is in range. One that does not start is. -/
def inRange (e : Engine) (S : Strategy) : Bool :=
  match StrategyHost.checkSpec S.spec e.settings.resolution, e.clock with
  | .ok (), .ok clock =>
    let start := RunState.start S e.selector e.settings e.prices e.contracts
    start.callInRange (.startOf e.settings.start e.settings.resolution) S.onStart &&
      RunProgress.loopInRange clock.remaining clock (e.begin S)
  | _, _ => true

/-- The run of the registered strategy, or the overflow at which the program stops. -/
def checkedRun (e : Engine) : Except Overflow (Except RunError RunResult) :=
  match e.host.strategy with
  | .error _ => .ok e.run
  | .ok S => Overflow.check (e.inRange S) e.run

end Engine

end MarketReplay
