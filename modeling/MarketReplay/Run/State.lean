import MarketReplay.Run.Result
import MarketReplay.Strategy
import MarketReplay.Tape.Feed

/-!
# The state of a run and its step

A step resolves the universe, takes the slice of the instant, fills orders submitted before it, and
then calls the strategy: with changes, with data, and with order events and due schedules
interleaved by time. The first callback that fails ends the step.
-/

namespace MarketReplay

/-- Something the dispatch phase delivers. -/
inductive Delivery where
  | event (e : OrderEvent)
  | fire (due : DueCallback)

/-- Events and due schedules in the order of delivery. A schedule goes before an event only if it
is due earlier than the event's time. -/
def interleave : List OrderEvent → List DueCallback → List Delivery
  | [], due => due.map .fire
  | e :: events, due =>
    let earlier := fun d : DueCallback => decide (d.time < e.time)
    (due.takeWhile earlier).map .fire ++ .event e :: interleave events (due.dropWhile earlier)

/-- The state of a run: what commands act on, the scheduler, the feed, the last seen prices, the
merged changes, the delivered events, and the states of strategy and selector. -/
structure RunState (S : Strategy) (sel : Selector) where
  kernel : Kernel S.Code
  scheduler : Scheduler S.Code
  feed : Feed
  marks : SortedMap Symbol Int
  merged : Changes
  delivered : List OrderEvent
  strategy : S.State
  selector : sel.State

namespace RunState

variable {S : Strategy} {sel : Selector}

/-- The state before the first callback. -/
def start (S : Strategy) (sel : Selector) (settings : RunSettings) (prices : SeriesLookup)
    (contracts : ContractLookup) : RunState S sel where
  kernel :=
    { calendar := settings.calendar
      tracked := .start settings.release settings.cadence
      book := .start settings.calendar settings.buyingPower
      portfolio := .ofCash settings.initialCash
      contracts
      pending := [] }
  scheduler := .start settings.calendar
  feed := .start prices settings.calendar settings.normalization
  marks := .empty
  merged := .none
  delivered := []
  strategy := S.initial
  selector := sel.initial

/-- The state after a callback, and the failure if it failed. -/
def call (r : RunState S sel) (now : Instant) (label : String)
    (program : S.State → Program S.Code (Outcome S.State)) : RunState S sel × Option RunFailure :=
  let (outcome, kernel) := (program r.strategy).run now r.kernel
  ({ r with kernel, strategy := outcome.state },
    outcome.error.map fun e => ⟨now, label, e.text⟩)

/-- The state with the universe resolved at an instant, and the changes. -/
def resolve (r : RunState S sel) (now : Instant) : Changes × RunState S sel :=
  let (changes, tracked, selector) := r.kernel.tracked.resolve now sel r.selector
  (changes, { r with kernel := { r.kernel with tracked }, selector })

/-- The state with the slice of an instant taken: prices of securities and marks follow it. -/
def observe (r : RunState S sel) (now : Instant) : DataSlice × RunState S sel :=
  let (slice, feed) := r.feed.slice now r.kernel.tracked.dataSymbols
  (slice,
    { r with
      feed
      kernel := { r.kernel with tracked := r.kernel.tracked.updatePrices slice }
      marks := r.marks.insertAll (slice.quotes.entries.map fun e => (e.1, e.2.price)) })

/-- The portfolio after the fill of an event. -/
def applyFill (p : Portfolio) (e : OrderEvent) : Portfolio :=
  match e.fillPrice with
  | none => p
  | some price => p.apply (.ofSigned e.symbol e.quantity price)

/-- The state with open orders matched against a slice and the fills booked. -/
def fillOrders (r : RunState S sel) (now : Instant) (slice : DataSlice) : RunState S sel :=
  let (events, book) := r.kernel.book.evaluate now slice
  { r with
    kernel := { r.kernel with book, portfolio := events.foldl applyFill r.kernel.portfolio } }

/-- The state after the strategy was told of changes, if there are any. -/
def notifyChanges (r : RunState S sel) (now : Instant) (changes : Changes) :
    RunState S sel × Option RunFailure :=
  if changes.isEmpty then (r, none)
  else
    call { r with merged := r.merged.merge changes } now "on_securities_changed" fun state =>
      S.onSecuritiesChanged state changes

/-- The state after the strategy was given a slice, if it is not empty. -/
def notifyData (r : RunState S sel) (now : Instant) (slice : DataSlice) :
    RunState S sel × Option RunFailure :=
  if slice.isEmpty then (r, none)
  else r.call now "on_data" fun state => S.onData state slice

/-- The state after one delivery. -/
def deliver (r : RunState S sel) (now : Instant) : Delivery → RunState S sel × Option RunFailure
  | .event e =>
    call { r with delivered := r.delivered ++ [e] } now "on_order_event" fun state =>
      S.onOrderEvent state e
  | .fire due => r.call now (r.scheduler.label due) (r.scheduler.fire S due)

/-- The state after deliveries in turn, up to the first that fails. -/
def deliverAll (now : Instant) : List Delivery → RunState S sel → RunState S sel × Option RunFailure
  | [], r => (r, none)
  | d :: rest, r =>
    match r.deliver now d with
    | (r', some failure) => (r', some failure)
    | (r', none) => deliverAll now rest r'

/-- The state after the dispatch of undelivered events and due schedules. -/
def dispatch (r : RunState S sel) (now : Instant) :
    Except OffsetOverflow (RunState S sel × Option RunFailure) :=
  let (events, book) := r.kernel.book.drain
  match r.scheduler.due now.time with
  | .error o => .error o
  | .ok (due, scheduler) =>
    .ok (deliverAll now (interleave events due)
      { r with kernel := { r.kernel with book }, scheduler })

/-- The changes and the slice of an instant, and the state with both taken and orders matched. -/
def market (r : RunState S sel) (now : Instant) : Changes × DataSlice × RunState S sel :=
  let (changes, resolved) := r.resolve now
  let (slice, observed) := resolved.observe now
  (changes, slice, observed.fillOrders now slice)

/-- The state after the strategy was told of changes and given a slice, up to the first callback
that fails. -/
def notify (r : RunState S sel) (now : Instant) (changes : Changes) (slice : DataSlice) :
    RunState S sel × Option RunFailure :=
  match r.notifyChanges now changes with
  | (r', some failure) => (r', some failure)
  | (r', none) => r'.notifyData now slice

/-- The state after the phases of a step, up to the first callback that fails. -/
def phases (r : RunState S sel) (now : Instant) :
    Except OffsetOverflow (RunState S sel × Option RunFailure) :=
  let (changes, slice, matched) := r.market now
  match matched.notify now changes slice with
  | (r', some failure) => .ok (r', some failure)
  | (r', none) => r'.dispatch now

/-- The state with the schedules asked for installed. -/
def install (r : RunState S sel) : RunState S sel :=
  let (kernel, scheduler) := r.kernel.install r.scheduler
  { r with kernel, scheduler }

/-- The state after a step. -/
def step (r : RunState S sel) (now : Instant) :
    Except OffsetOverflow (RunState S sel × Option RunFailure) :=
  (r.phases now).map fun (r', failure) => (r'.install, failure)

/-- The state after the strategy was initialized. -/
def launch (r : RunState S sel) (now : Instant) : RunState S sel × Option RunFailure :=
  let (r', failure) := r.call now "initialize" S.onStart
  (r'.install, failure)

/-- The value of the portfolio at the end of a date, by the last seen prices. -/
def equityPoint (r : RunState S sel) (date : Date) : EquityPoint :=
  ⟨date, r.kernel.portfolio.equity r.marks.get?, r.kernel.portfolio.cash⟩

end RunState

end MarketReplay
