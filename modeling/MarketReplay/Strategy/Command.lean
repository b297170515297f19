import MarketReplay.Order.Book
import MarketReplay.Portfolio
import MarketReplay.Schedule
import MarketReplay.Universe

/-!
# Commands of a strategy

During a callback a strategy acts on the kernel of a run by commands and sees it by their replies.
Orders and subscriptions take effect from the next phase on; schedules are kept until they are
installed. `Command.inRange` tells whether all costs that a command estimates fit their width.
-/

namespace MarketReplay

/-- The contracts on an underlying as of a date. -/
abbrev ContractLookup := Symbol → Date → List Symbol

/-- A schedule asked for and not yet installed. -/
structure PendingSchedule (κ : Type) where
  rule : ScheduleRule
  action : ScheduledAction κ
  registered : DateTime

/-- What commands act on. -/
structure Kernel (κ : Type) where
  calendar : Calendar
  tracked : Universe
  book : OrderBook
  portfolio : Portfolio
  contracts : ContractLookup
  pending : List (PendingSchedule κ)

/-- What a strategy sees of a tracked security. -/
structure SecurityView where
  symbol : Symbol
  price : Option Int
  lastUpdate : Option DateTime
  hasData : Bool
  active : Bool
  manual : Bool
  subscribed : Bool
  member : Bool
  deriving DecidableEq

/-- The view of a symbol's record. -/
def Security.view (symbol : Symbol) (s : Security) : SecurityView :=
  ⟨symbol, s.price, s.lastUpdate, s.hasData, s.active, s.manual, s.isSubscribed, s.isMember⟩

/-- A command; `κ` is the type of the codes of a strategy's own callbacks. -/
inductive Command (κ : Type) where
  | submit (request : OrderRequest)
  | cancel (id : Nat)
  | liquidate (target : Option Symbol)
  | addInstrument (symbol : Symbol)
  | addContract (contract : Symbol)
  | addDerivedContract (underlying : Symbol) (expiry : Date) (right : OptionRight)
      (style : OptionStyle)
  | removeInstrument (symbol : Symbol)
  | optionChain (underlying : Symbol)
  | schedule (rule : ScheduleRule) (action : ScheduledAction κ)
  | clock
  | security (symbol : Symbol)
  | securities
  | portfolio
  | order (id : Nat)
  | openOrders

namespace Command

variable {κ : Type}

/-- What a command answers. -/
def Reply : Command κ → Type
  | submit _ => Except OrderError Order
  | cancel _ => Except OrderError OrderEvent
  | liquidate _ => Except OrderError (List Order)
  | addInstrument _ => Except UniverseError Unit
  | addContract _ => Except UniverseError Unit
  | addDerivedContract .. => Except UniverseError Symbol
  | removeInstrument _ => Except UniverseError (List OrderEvent)
  | optionChain _ => List Symbol
  | schedule .. => Unit
  | clock => Instant × Calendar
  | security _ => Option SecurityView
  | securities => List SecurityView
  | portfolio => Portfolio
  | order _ => Option Order
  | openOrders => List Order

/-- A market order of a signed quantity. -/
def market (symbol : Symbol) (quantity : Int) : Command κ :=
  .submit ⟨symbol, quantity, .market, none⟩

/-- A market order that buys the magnitude of a quantity. -/
def buy (symbol : Symbol) (quantity : Int) : Command κ := market symbol (abs64 quantity)

/-- A market order that sells the magnitude of a quantity. -/
def sell (symbol : Symbol) (quantity : Int) : Command κ := market symbol (wrap64 (-abs64 quantity))

/-- An order for the next opening. -/
def marketOnOpen (symbol : Symbol) (quantity : Int) : Command κ :=
  .submit ⟨symbol, quantity, .marketOnOpen, none⟩

end Command

namespace Kernel

variable {κ : Type}

/-- The order of a request, or why it is refused. -/
def submit (k : Kernel κ) (now : Instant) (request : OrderRequest) :
    Except OrderError Order × Kernel κ :=
  match k.book.submit request k.tracked k.portfolio.cash now with
  | .error e => (.error e, k)
  | .ok (order, book) => (.ok order, { k with book })

/-- The market orders that close positions, submitted in turn until one is refused. -/
def closeAll (now : Instant) : List (Symbol × Int) → Kernel κ →
    Except OrderError (List Order) × Kernel κ
  | [], k => (.ok [], k)
  | (symbol, quantity) :: rest, k =>
    if quantity = 0 then closeAll now rest k
    else
      match k.submit now ⟨symbol, wrap64 (-quantity), .market, none⟩ with
      | (.error e, k') => (.error e, k')
      | (.ok order, k') =>
        let (result, k'') := closeAll now rest k'
        (result.map (order :: ·), k'')

/-- The positions that a liquidation of a target, or of everything, closes. -/
def targets (k : Kernel κ) (target : Option Symbol) : List (Symbol × Int) :=
  (k.portfolio.holdings.entries.filter fun e => target.all (· = e.1)).map fun e =>
    (e.1, e.2.quantity)

/-- The numbers of the open orders on a target, or of all open orders. -/
def openIds (k : Kernel κ) (target : Option Symbol) : List Nat :=
  (k.book.openOrders.filter fun o => target.all (· = o.symbol)).map Order.id

/-- Open orders on the target canceled and its positions closed by market orders. -/
def liquidate (k : Kernel κ) (now : Instant) (target : Option Symbol) :
    Except OrderError (List Order) × Kernel κ :=
  let canceled := (OrderBook.cancelAll now (k.openIds target) k.book).2
  closeAll now (k.targets target) { k with book := canceled }

/-- Whether the costs behind the orders that close positions are in range, up to the first that is
refused. -/
def closeAllInRange (now : Instant) : List (Symbol × Int) → Kernel κ → Bool
  | [], _ => true
  | (symbol, quantity) :: rest, k =>
    if quantity = 0 then closeAllInRange now rest k
    else
      let request : OrderRequest := ⟨symbol, wrap64 (-quantity), .market, none⟩
      fitsInt64 (-quantity) && OrderBook.submitInRange request k.tracked &&
        match k.submit now request with
        | (.error _, _) => true
        | (.ok _, k') => closeAllInRange now rest k'

/-- Whether the costs behind a liquidation are in range. -/
def liquidateInRange (k : Kernel κ) (now : Instant) (target : Option Symbol) : Bool :=
  let canceled := (OrderBook.cancelAll now (k.openIds target) k.book).2
  closeAllInRange now (k.targets target) { k with book := canceled }

/-- A subscription command's result and the kernel after it. -/
def subscribe (k : Kernel κ) (result : Except UniverseError Universe) :
    Except UniverseError Unit × Kernel κ :=
  match result with
  | .error e => (.error e, k)
  | .ok tracked => (.ok (), { k with tracked })

/-- Whether a symbol is a contract of given expiry, right and style. -/
def hasTerms (expiry : Date) (right : OptionRight) (style : OptionStyle) (symbol : Symbol) : Bool :=
  match symbol.contract? with
  | none => false
  | some c => c.expiry = expiry && c.right = right && c.style = style

/-- The first listed contract on an underlying with given terms, subscribed by hand. -/
def addDerivedContract (k : Kernel κ) (now : Instant) (underlying : Symbol) (expiry : Date)
    (right : OptionRight) (style : OptionStyle) : Except UniverseError Symbol × Kernel κ :=
  match (k.contracts underlying now.date).find? (hasTerms expiry right style) with
  | none => (.error (.noMatchingContract underlying expiry), k)
  | some contract =>
    match k.subscribe (k.tracked.addContract contract) with
    | (.error e, k') => (.error e, k')
    | (.ok (), k') => (.ok contract, k')

/-- A symbol's subscription by hand cleared and its open orders canceled; holdings stay. -/
def removeInstrument (k : Kernel κ) (now : Instant) (symbol : Symbol) :
    Except UniverseError (List OrderEvent) × Kernel κ :=
  match k.tracked.removeInstrument symbol with
  | .error e => (.error e, k)
  | .ok tracked =>
    let (events, book) := k.book.cancelOpenFor symbol now
    (.ok events, { k with tracked, book })

end Kernel

/-- The reply to a command given at an instant, and the kernel after it. -/
def Command.execute {κ : Type} (now : Instant) (k : Kernel κ) : (c : Command κ) → c.Reply × Kernel κ
  | .submit request => k.submit now request
  | .cancel id =>
    match k.book.cancel id now with
    | .error e => (.error e, k)
    | .ok (event, book) => (.ok event, { k with book })
  | .liquidate target => k.liquidate now target
  | .addInstrument symbol => k.subscribe (k.tracked.addInstrument symbol)
  | .addContract contract => k.subscribe (k.tracked.addContract contract)
  | .addDerivedContract underlying expiry right style =>
    k.addDerivedContract now underlying expiry right style
  | .removeInstrument symbol => k.removeInstrument now symbol
  | .optionChain underlying => (k.contracts underlying now.date, k)
  | .schedule rule action => ((), { k with pending := k.pending ++ [⟨rule, action, now.time⟩] })
  | .clock => ((now, k.calendar), k)
  | .security symbol => ((k.tracked.get? symbol).map (Security.view symbol), k)
  | .securities => (k.tracked.securities.entries.map fun e => e.2.view e.1, k)
  | .portfolio => (k.portfolio, k)
  | .order id => (k.book.get? id, k)
  | .openOrders => (k.book.openOrders, k)

/-- Whether the costs behind a command given at an instant are in range. -/
def Command.inRange {κ : Type} (now : Instant) (k : Kernel κ) : Command κ → Bool
  | .submit request => OrderBook.submitInRange request k.tracked
  | .liquidate target => k.liquidateInRange now target
  | _ => true

end MarketReplay
