import MarketReplay.Strategy.Catalogue

/-!
# Strategies that come with the program

`noop` does nothing. `buy-and-hold` buys once, on the first quote of its symbol. `moo-daily` orders
for the next opening on every trading day, an hour before the close.
-/

namespace MarketReplay.Builtin

/-- The symbol and quantity that a strategy trades. -/
structure Params where
  symbol : Symbol
  quantity : Int

/-- The strategy that does nothing. -/
def noop : Strategy where
  State := Unit
  Code := Empty
  spec := ⟨"noop", none⟩
  initial := ()
  onStart := Strategy.idle
  onSecuritiesChanged state _ := Strategy.idle state
  onData state _ := Strategy.idle state
  onOrderEvent state _ := Strategy.idle state
  onScheduled state _ := Strategy.idle state
  onCallback state _ := Strategy.idle state

/-- The program that subscribes a symbol and then goes on, or fails. -/
def subscribeThen {κ σ : Type} (symbol : Symbol) (state : σ) (next : Program κ (Outcome σ)) :
    Program κ (Outcome σ) :=
  .perform (.addInstrument symbol) fun
    | .error e => .done ⟨state, some (.subscription e)⟩
    | .ok () => next

/-- The program of one order; `after` is the state if it is accepted. -/
def orderThen {κ σ : Type} (request : OrderRequest) (state after : σ) : Program κ (Outcome σ) :=
  .perform (.submit request) fun
    | .error e => .done ⟨state, some (.order e)⟩
    | .ok _ => .done ⟨after, none⟩

/-- The strategy that buys once and holds; its state says whether it has bought. -/
def buyAndHold (params : Params) : Strategy where
  State := Bool
  Code := Empty
  spec := ⟨"buy-and-hold", none⟩
  initial := false
  onStart state := subscribeThen params.symbol state (Strategy.idle state)
  onSecuritiesChanged state _ := Strategy.idle state
  onData state slice :=
    if !state && slice.contains params.symbol then
      orderThen ⟨params.symbol, abs64 params.quantity, .market, none⟩ state true
    else Strategy.idle state
  onOrderEvent state _ := Strategy.idle state
  onScheduled state _ := Strategy.idle state
  onCallback state _ := Strategy.idle state

/-- An hour before the close of every trading day. -/
def hourBeforeClose : ScheduleRule := ⟨.everyTradingDay, .beforeClose 60⟩

/-- The strategy that orders for the next opening on every trading day. -/
def mooDaily (params : Params) : Strategy where
  State := Unit
  Code := Empty
  spec := ⟨"moo-daily", none⟩
  initial := ()
  onStart state := subscribeThen params.symbol state
    (.perform (.schedule hourBeforeClose (.named "moo")) fun _ => Strategy.idle state)
  onSecuritiesChanged state _ := Strategy.idle state
  onData state _ := Strategy.idle state
  onOrderEvent state _ := Strategy.idle state
  onScheduled state _ :=
    orderThen ⟨params.symbol, params.quantity, .marketOnOpen, none⟩ state state
  onCallback state _ := Strategy.idle state

/-- The entries of the catalogue. -/
def entries (params : Params) : List (StrategyMeta × Strategy) :=
  [(⟨"noop", "1.0.0", "subscribes and does nothing"⟩, noop),
   (⟨"buy-and-hold", "1.0.0", "market buy on the first print, then hold"⟩, buyAndHold params),
   (⟨"moo-daily", "1.0.0",
     "market-on-open buy each trading day, submitted an hour before the close"⟩, mooDaily params)]

/-- The catalogue of these strategies. -/
def catalogue (params : Params) : Catalogue := ⟨entries params⟩

end MarketReplay.Builtin
