import MarketReplay.Instant
import MarketReplay.Price
import MarketReplay.Symbol.Text

/-!
# Orders and their events

An order is submitted and then at most once filled or canceled. Every change of status is recorded
as an event.
-/

namespace MarketReplay

/-- How an order is filled: at the latest price, or at the opening of the next session. -/
inductive OrderType where
  | market | marketOnOpen
  deriving DecidableEq, Repr

/-- The status of an order. -/
inductive OrderStatus where
  | submitted | filled | canceled
  deriving DecidableEq, Repr

/-- What is done with a buy that exceeds the cash: refuse it, or accept it with a warning. -/
inductive BuyingPowerPolicy where
  | enforce | warnOnly
  deriving DecidableEq, Repr, Inhabited

/-- The name of an order type. -/
def OrderType.name : OrderType → String
  | market => "market"
  | marketOnOpen => "market_on_open"

namespace OrderStatus

/-- The name in texts. -/
def name : OrderStatus → String
  | submitted => "submitted"
  | filled => "filled"
  | canceled => "canceled"

/-- The name with a capital letter. -/
def title : OrderStatus → String
  | submitted => "Submitted"
  | filled => "Filled"
  | canceled => "Canceled"

/-- Whether no change can follow. -/
def isTerminal : OrderStatus → Bool
  | submitted => false
  | _ => true

end OrderStatus

/-- What a strategy asks for; a positive quantity buys. -/
structure OrderRequest where
  symbol : Symbol
  quantity : Int
  orderType : OrderType
  tag : Option String
  deriving DecidableEq

/-- An order. -/
structure Order where
  id : Nat
  symbol : Symbol
  quantity : Int
  orderType : OrderType
  submitted : Instant
  status : OrderStatus
  fillPrice : Option Int
  fillTime : Option DateTime
  tag : Option String
  deriving DecidableEq

/-- The record of one change of status, numbered in the order of creation. -/
structure OrderEvent where
  orderId : Nat
  symbol : Symbol
  quantity : Int
  status : OrderStatus
  submitted : Instant
  time : DateTime
  fillPrice : Option Int
  fillTime : Option DateTime
  seq : Nat
  deriving DecidableEq

/-- Why an order command is refused. -/
inductive OrderError where
  | unknownSymbol (symbol : Symbol)
  | zeroQuantity
  | insufficientFunds (required available : Int)
  | invalidState (id : Nat) (status : OrderStatus)
  | unknownOrder (id : Nat)
  deriving DecidableEq

/-- A change of status that is not allowed. -/
structure TransitionError where
  id : Nat
  source : OrderStatus
  target : OrderStatus
  deriving DecidableEq

/-- The text of the error. -/
def OrderError.message : OrderError → String
  | unknownSymbol s => "no security record for " ++ s.text
  | zeroQuantity => "order quantity must be non-zero"
  | insufficientFunds required available =>
    "insufficient funds: required " ++ Price.format required ++ ", available " ++
      Price.format available
  | invalidState id status => "order " ++ toString id ++ " is already " ++ status.name
  | unknownOrder id => "unknown order id " ++ toString id

namespace TransitionError

/-- The text of the error. -/
def message (e : TransitionError) : String :=
  "illegal order transition for " ++ toString e.id ++ ": " ++ e.source.title ++ " -> " ++
    e.target.title

/-- The error as that of an order command: the order is already in its status. -/
def toOrderError (e : TransitionError) : OrderError := .invalidState e.id e.source

end TransitionError

namespace Order

/-- Whether the order can still change. -/
def isOpen (o : Order) : Bool := !o.status.isTerminal

/-- The order in another status; only a submitted order changes, and not to submitted. -/
def transition (o : Order) (target : OrderStatus) : Except TransitionError Order :=
  if o.status ≠ .submitted ∨ target = .submitted then .error ⟨o.id, o.status, target⟩
  else .ok { o with status := target }

/-- The event of an order's status at a moment. -/
def event (o : Order) (now : Instant) (seq : Nat) : OrderEvent :=
  ⟨o.id, o.symbol, o.quantity, o.status, o.submitted, now.time, o.fillPrice, o.fillTime, seq⟩

end Order

/-- Whether the event is a fill. -/
def OrderEvent.isFill (e : OrderEvent) : Bool := e.status = .filled

end MarketReplay
