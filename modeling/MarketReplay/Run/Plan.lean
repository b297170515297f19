import MarketReplay.Config
import MarketReplay.Run.Document
import MarketReplay.Symbol.Text
import MarketReplay.Text.Split

/-!
# The plan of a run

What is to be run, from a configuration and what is given beside it. A thing given beside it takes
the place of the one in the configuration; the universe is the symbol that is traded if nothing
names one.
-/

namespace MarketReplay

/-- What is given beside a configuration. -/
structure RunOverrides where
  prices : Option String
  members : Option String
  strategy : Option String
  symbol : Option String
  deriving DecidableEq

/-- What is to be run. -/
structure RunPlan where
  settings : RunSettings
  members : List Symbol
  strategy : String
  symbol : Symbol
  quantity : Int
  prices : String
  deriving DecidableEq

/-- Why there is no plan. -/
inductive PlanError where
  | config (error : ConfigError)
  | symbol (text : String) (error : SymbolError)
  | noSymbol
  | badQuantity (quantity : Int)
  | noPrices
  deriving DecidableEq

/-- The text of the error. -/
def PlanError.message : PlanError → String
  | config e => e.message
  | symbol text _ => "invalid symbol: " ++ text
  | noSymbol => "no symbol: pass --symbol or --universe, or set universe.symbols"
  | badQuantity quantity => "strategy quantity must be > 0, got " ++ toString quantity
  | noPrices => "no price data: pass --prices or set data.prices in config"

namespace RunPlan

/-- The strategy of a plan that names none. -/
def defaultStrategy : String := "noop"

/-- The quantity of a plan that gives none. -/
def defaultQuantity : Int := 100

/-- The section on the strategy. -/
structure StrategySection where
  name : Option String
  symbol : Option String
  quantity : Option Int

/-- The symbols that a section on the universe lists. -/
def readUniverse : Decoder (List String) :=
  RecordType.decode ⟨"UniverseSection", ["symbols"], false⟩ fun r =>
    r.withDefault "symbols" [] (Decoder.list Decoder.text)

/-- The section on the strategy, from its document. -/
def readStrategy : Decoder StrategySection :=
  RecordType.decode ⟨"StrategySection", ["name", "symbol", "quantity"], false⟩ fun r =>
    StrategySection.mk <$> r.optional "name" Decoder.text <*> r.optional "symbol" Decoder.text
      <*> r.optional "quantity" Decoder.int64

/-- The price table that a section on data names. -/
def readData : Decoder (Option String) :=
  RecordType.decode ⟨"DataSection", ["prices"], false⟩ fun r => r.optional "prices" Decoder.text

/-- The texts between commas, trimmed, without the empty ones. -/
def listedTexts (s : String) : List String :=
  ((Text.split ',' s.toList).map fun part => String.ofList (Text.trim part)).filter fun t =>
    !t.isEmpty

/-- The symbol of a text. -/
def parseSymbol (text : String) : Except PlanError Symbol :=
  (Symbol.parse text).mapError (.symbol text)

/-- The universe: the symbols given beside the configuration, or those in it. -/
def membersOf (c : Config) (o : RunOverrides) : Except PlanError (List Symbol) := do
  let texts ← match o.members with
    | some listed => pure (listedTexts listed)
    | none => do
      let found ← (c.sectionOption "/universe" readUniverse).mapError PlanError.config
      pure (found.getD [])
  texts.mapM parseSymbol

/-- The plan of a configuration. -/
def ofConfig (c : Config) (o : RunOverrides) : Except PlanError RunPlan := do
  let settings ← (c.sectionOf "/backtest" RunSettings.decode).mapError PlanError.config
  let members ← membersOf c o
  let found ← (c.sectionOption "/strategy" readStrategy).mapError PlanError.config
  let strategy := found.getD ⟨none, none, none⟩
  let data ← (c.sectionOption "/data" readData).mapError PlanError.config
  let symbol ← match o.symbol.or strategy.symbol, members with
    | some text, _ => parseSymbol text
    | none, first :: _ => pure first
    | none, [] => throw .noSymbol
  let quantity := strategy.quantity.getD defaultQuantity
  if quantity ≤ 0 then throw (.badQuantity quantity)
  match o.prices.or (data.getD none) with
  | none => throw .noPrices
  | some prices =>
    return { settings, symbol, quantity, prices
             members := if members.isEmpty then [symbol] else members
             strategy := (o.strategy.or strategy.name).getD defaultStrategy }

end RunPlan

end MarketReplay
