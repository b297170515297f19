import MarketReplay.Failure
import MarketReplay.Run.Document
import MarketReplay.Strategy.Command
import MarketReplay.Tape.Document

/-!
# Documents of what a strategy sees and does

Schedule rules, order requests and commands are read from documents; changes, securities and
portfolios are written to them, and so is the reply to a command.
-/

namespace MarketReplay

/-- The document of changes. -/
def Changes.toJson (c : Changes) : Json :=
  .ofFields
    [("added", .array (c.added.map .ofFullSymbol)),
     ("removed", .array (c.removed.map .ofFullSymbol))]

/-- The document of a security. -/
def SecurityView.toJson (v : SecurityView) : Json :=
  .ofFields
    [("symbol", .ofFullSymbol v.symbol),
     ("price", .ofIntOption v.price),
     ("updated", .ofMomentOption v.lastUpdate),
     ("has_data", .bool v.hasData),
     ("active", .bool v.active),
     ("manual", .bool v.manual),
     ("subscribed", .bool v.subscribed),
     ("member", .bool v.member)]

/-- The document of a portfolio. -/
def Portfolio.toJson (p : Portfolio) : Json :=
  let holding := fun (e : Symbol × Holding) =>
    Json.ofFields [("symbol", .ofFullSymbol e.1), ("qty", .int e.2.quantity),
      ("avg", .int e.2.averagePrice)]
  .ofFields
    [("cash", .int p.cash), ("realized", .int p.realized),
     ("holdings", .array (p.holdings.entries.map holding))]

/-- The numbers of orders. -/
def Json.ofOrderIds (orders : List Order) : Json := .array (orders.map fun o => .int o.id)

/-- Events. -/
def Json.ofEvents (events : List OrderEvent) : Json := .array (events.map OrderEvent.toJson)

namespace Reading

/-- The dates of a schedule rule. -/
def dateRule : Json → Reading DateRule
  | .string "every_day" => .ok .everyDay
  | .string "every_trading_day" => .ok .everyTradingDay
  | j => (j.read "on" date).map .on

/-- The time of a schedule rule. -/
def timeRule : Json → Reading TimeRule
  | .string "midnight" => .ok .midnight
  | .object [("at", at')] => do
    match ← list nat at' with
    | [hour, minute] => return .clock hour minute
    | _ => .error (.shape "hour and minute")
  | .object [("after_open", minutes)] => (int minutes).map .afterOpen
  | .object [("before_close", minutes)] => (int minutes).map .beforeClose
  | _ => .error (.shape "time rule")

/-- A schedule rule. -/
def scheduleRule (j : Json) : Reading ScheduleRule := do
  return ⟨← j.read "date" dateRule, ← j.read "time" timeRule⟩

/-- The request of an order. -/
def orderRequest (j : Json) : Reading OrderRequest := do
  return {
    symbol := ← j.read "symbol" symbol
    quantity := ← j.read "qty" int
    orderType := ← j.readOr "type" .market (choice Json.orderTypes)
    tag := ← j.readOption "tag" text }

/-- The request of a command that trades a quantity of a symbol. -/
def trade {κ : Type} (command : Symbol → Int → Command κ) (j : Json) : Reading (Command κ) := do
  return command (← j.read "symbol" symbol) (← j.read "qty" int)

/-- A command by the name under `c`; `code` reads the code of a callback. -/
def command {κ : Type} (code : Json → Reading κ) (j : Json) : Reading (Command κ) := do
  match ← j.read "c" text with
  | "buy" => trade .buy j
  | "sell" => trade .sell j
  | "market" => trade .market j
  | "moo" => trade .marketOnOpen j
  | "submit" => return .submit (← orderRequest j)
  | "cancel" => return .cancel (← j.read "id" nat)
  | "liquidate" => return .liquidate (← j.readOption "symbol" symbol)
  | "add" => return .addInstrument (← j.read "symbol" symbol)
  | "add_contract" => return .addContract (← j.read "symbol" symbol)
  | "remove" => return .removeInstrument (← j.read "symbol" symbol)
  | "chain" => return .optionChain (← j.read "symbol" symbol)
  | "add_derived" =>
    return .addDerivedContract (← j.read "underlying" symbol) (← j.read "expiry" date)
      (← j.readOr "right" .call (choice Json.optionRights))
      (← j.readOr "style" .american (choice Json.optionStyles))
  | "schedule_named" =>
    return .schedule (← j.read "rule" scheduleRule) (.named (← j.read "name" text))
  | "schedule" => return .schedule (← j.read "rule" scheduleRule) (.callback (← code j))
  | "time" => return .clock
  | "security" => return .security (← j.read "symbol" symbol)
  | "securities" => return .securities
  | "portfolio" => return .portfolio
  | "order" => return .order (← j.read "id" nat)
  | "open_orders" => return .openOrders
  | _ => .error (.shape "command")

end Reading

namespace Command

variable {κ : Type}

/-- The error of a reply, if the command failed. -/
def failure? : (c : Command κ) → c.Reply → Option StrategyError
  | .submit _, .error e => some (.order e)
  | .cancel _, .error e => some (.order e)
  | .liquidate _, .error e => some (.order e)
  | .addInstrument _, .error e => some (.subscription e)
  | .addContract _, .error e => some (.subscription e)
  | .addDerivedContract .., .error e => some (.subscription e)
  | .removeInstrument _, .error e => some (.subscription e)
  | _, _ => none

/-- The document of a result that may be an error. -/
def resultJson {ε α : Type} (wrap : ε → StrategyError) (write : α → Json) : Except ε α → Json
  | .ok value => write value
  | .error e => .ofFailure (wrap e)

/-- The document of a reply. -/
def replyJson : (c : Command κ) → c.Reply → Json
  | .submit _, r => resultJson .order Order.toJson r
  | .cancel _, r => resultJson .order OrderEvent.toJson r
  | .liquidate _, r => resultJson .order (fun orders => .array (orders.map Order.toJson)) r
  | .addInstrument _, r => resultJson .subscription (fun _ => .null) r
  | .addContract _, r => resultJson .subscription (fun _ => .null) r
  | .addDerivedContract .., r => resultJson .subscription .ofFullSymbol r
  | .removeInstrument _, r => resultJson .subscription .ofEvents r
  | .optionChain _, r => .array (r.map .ofFullSymbol)
  | .schedule .., _ => .null
  | .clock, r => .ofFields [("at", .string r.1.text), ("calendar", .ofChoice Json.calendars r.2)]
  | .security _, r => (r.map SecurityView.toJson).getD .null
  | .securities, r => .array (r.map SecurityView.toJson)
  | .portfolio, r => r.toJson
  | .order _, r => (r.map Order.toJson).getD .null
  | .openOrders, r => .ofOrderIds r

end Command

end MarketReplay
