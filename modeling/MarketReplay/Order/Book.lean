import MarketReplay.Calendar
import MarketReplay.Order.Basic
import MarketReplay.Universe

/-!
# The order book

The book owns the orders of a run in the order of their numbers, 1 first, and the queue of events
that were not yet delivered. Orders are matched against slices; a delivered batch is sorted by
submission, order number and creation.
-/

namespace MarketReplay

/-- Orders and undelivered events. -/
structure OrderBook where
  calendar : Calendar
  policy : BuyingPowerPolicy
  orders : List Order
  nextSeq : Nat
  pending : List OrderEvent
  warnings : List String
  deriving DecidableEq

namespace OrderBook

/-- The book without orders. -/
def start (calendar : Calendar) (policy : BuyingPowerPolicy) : OrderBook :=
  ⟨calendar, policy, [], 0, [], []⟩

instance : Inhabited OrderBook := ⟨start default default⟩

/-- The order of a number. -/
def get? (b : OrderBook) (id : Nat) : Option Order := b.orders.find? fun o => o.id = id

/-- The orders that can still change. -/
def openOrders (b : OrderBook) : List Order := b.orders.filter Order.isOpen

/-- Whether events wait for delivery. -/
def hasPending (b : OrderBook) : Bool := !b.pending.isEmpty

/-- The book with an event of an order's status queued. -/
def queue (b : OrderBook) (o : Order) (now : Instant) : OrderBook :=
  { b with pending := b.pending ++ [o.event now b.nextSeq], nextSeq := b.nextSeq + 1 }

/-- What a request is worth at the last known price. -/
def worth (request : OrderRequest) (security : Security) : Int :=
  request.quantity * security.price.getD 0 * request.symbol.multiplier

/-- The cash that a buy is estimated to need. -/
def estimatedCost (request : OrderRequest) (security : Security) : Int :=
  max 0 (min (worth request security) maxInt64)

/-- The warning about a buy that exceeds the cash. -/
def fundsWarning (request : OrderRequest) (required cash : Int) (now : Instant) : String :=
  now.text ++ ": buy " ++ toString request.quantity ++ " " ++ request.symbol.text ++ " needs " ++
    Price.format required ++ " but only " ++ Price.format cash ++ " cash is available"

/-- The warnings that a request adds to, or why it is refused. -/
def check (b : OrderBook) (request : OrderRequest) (tracked : Universe) (cash : Int)
    (now : Instant) : Except OrderError (List String) :=
  match tracked.get? request.symbol with
  | none => .error (.unknownSymbol request.symbol)
  | some security =>
    if request.quantity = 0 then .error .zeroQuantity
    else if request.quantity < 0 then .ok b.warnings
    else
      let required := estimatedCost request security
      if required ≤ cash then .ok b.warnings
      else
        match b.policy with
        | .enforce => .error (.insufficientFunds required cash)
        | .warnOnly => .ok (b.warnings ++ [fundsWarning request required cash now])

/-- The order of an accepted request. -/
def accepted (b : OrderBook) (request : OrderRequest) (now : Instant) : Order :=
  ⟨b.orders.length + 1, request.symbol, request.quantity, request.orderType, now, .submitted, none,
    none, request.tag⟩

/-- The order of a request and the book with it, or why it is refused. -/
def submit (b : OrderBook) (request : OrderRequest) (tracked : Universe) (cash : Int)
    (now : Instant) : Except OrderError (Order × OrderBook) :=
  match b.check request tracked cash now with
  | .error e => .error e
  | .ok warnings =>
    let order := b.accepted request now
    .ok (order, ({ b with orders := b.orders ++ [order], warnings } : OrderBook).queue order now)

/-- Whether the product behind the cost of a request is in range; only a buy has a cost. -/
def submitInRange (request : OrderRequest) (tracked : Universe) : Bool :=
  match tracked.get? request.symbol with
  | none => true
  | some security => request.quantity ≤ 0 || fitsInt128 (worth request security)

/-- The order of a request and the book with it, or why it is refused, or the overflow at which the
program stops. -/
def checkedSubmit (b : OrderBook) (request : OrderRequest) (tracked : Universe) (cash : Int)
    (now : Instant) : Except Overflow (Except OrderError (Order × OrderBook)) :=
  Overflow.check (submitInRange request tracked) (b.submit request tracked cash now)

/-- Orders with one replaced by its number. -/
def replace (order : Order) (orders : List Order) : List Order :=
  orders.map fun o => if o.id = order.id then order else o

/-- The event of a cancellation and the book after it, or why it is refused. -/
def cancel (b : OrderBook) (id : Nat) (now : Instant) :
    Except OrderError (OrderEvent × OrderBook) :=
  match b.get? id with
  | none => .error (.unknownOrder id)
  | some order =>
    match order.transition .canceled with
    | .error e => .error e.toOrderError
    | .ok canceled =>
      .ok (canceled.event now b.nextSeq,
        ({ b with orders := replace canceled b.orders } : OrderBook).queue canceled now)

/-- The events of cancellations in turn and the book after them; what cannot be canceled is passed
over. -/
def cancelAll (now : Instant) : List Nat → OrderBook → List OrderEvent × OrderBook
  | [], b => ([], b)
  | id :: rest, b =>
    match b.cancel id now with
    | .error _ => cancelAll now rest b
    | .ok (e, b') =>
      let (es, b'') := cancelAll now rest b'
      (e :: es, b'')

/-- The events of canceling every open order on a symbol, and the book after it. -/
def cancelOpenFor (b : OrderBook) (symbol : Symbol) (now : Instant) : List OrderEvent × OrderBook :=
  cancelAll now ((b.openOrders.filter fun o => o.symbol = symbol).map Order.id) b

/-- The price and print time at which a quote fills an order. A market order needs a print not
older than its submission; an order for the opening needs the opening of a session not before the
one that follows its submission date. -/
def fillBy (calendar : Calendar) (order : Order) (quote : Quote) : Option (Int × DateTime) :=
  match order.orderType with
  | .market => if order.submitted.time ≤ quote.time then some (quote.price, quote.time) else none
  | .marketOnOpen =>
    match calendar.nextSessionOpen order.submitted.date, quote.sessionOpen with
    | some due, some opening =>
      if due ≤ opening.time then some (opening.price, opening.time) else none
    | _, _ => none

/-- The fill of an order at an instant: the order must be open and submitted before the instant,
and its symbol have a quote that fills it. -/
def fill? (calendar : Calendar) (now : Instant) (slice : DataSlice) (order : Order) :
    Option Order :=
  if order.isOpen && order.submitted.before now then
    match slice.get? order.symbol with
    | none => none
    | some quote =>
      (fillBy calendar order quote).map fun (price, time) =>
        { order with status := .filled, fillPrice := some price, fillTime := some time }
  else none

/-- Orders after matching, and the events of the fills numbered from `seq` on. -/
def matchAll (calendar : Calendar) (now : Instant) (slice : DataSlice) :
    (seq : Nat) → List Order → List Order × List OrderEvent
  | _, [] => ([], [])
  | seq, order :: rest =>
    match fill? calendar now slice order with
    | none =>
      let (orders, events) := matchAll calendar now slice seq rest
      (order :: orders, events)
    | some filled =>
      let (orders, events) := matchAll calendar now slice (seq + 1) rest
      (filled :: orders, filled.event now seq :: events)

/-- The fills of an instant by its slice, and the book after them. -/
def evaluate (b : OrderBook) (now : Instant) (slice : DataSlice) : List OrderEvent × OrderBook :=
  let (orders, events) := matchAll b.calendar now slice b.nextSeq b.orders
  (events,
    { b with orders, pending := b.pending ++ events, nextSeq := b.nextSeq + events.length })

/-- Whether an event is delivered no later than another: by submission, then by order number, then
by creation. -/
def delivers (a b : OrderEvent) : Bool :=
  a.submitted.time < b.submitted.time ||
    (a.submitted.time = b.submitted.time &&
      (a.orderId < b.orderId || (a.orderId = b.orderId && a.seq ≤ b.seq)))

/-- The undelivered events in the order of delivery, and the book without them. -/
def drain (b : OrderBook) : List OrderEvent × OrderBook :=
  (b.pending.mergeSort delivers, { b with pending := [] })

end OrderBook

end MarketReplay
