import MarketReplay.Calendar
import MarketReplay.Civil.Pattern
import MarketReplay.Json.Decode
import MarketReplay.Order.Basic
import MarketReplay.Universe

/-!
# Written names of alternatives

The names under which the alternatives of the domain's choices stand in documents, and the values
that are written as texts. Reading and writing use the same tables.
-/

namespace MarketReplay.Json

/-- The markets. -/
def markets : List (String × Market) := [("usa", .usa)]

/-- The kinds of instruments. -/
def securityTypes : List (String × SecurityType) := [("equity", .equity), ("option", .option)]

/-- The rights of options. -/
def optionRights : List (String × OptionRight) := [("call", .call), ("put", .put)]

/-- The exercise styles. -/
def optionStyles : List (String × OptionStyle) := [("american", .american), ("european", .european)]

/-- The resolutions. -/
def resolutions : List (String × Resolution) :=
  [("tick", .tick), ("second", .second), ("minute", .minute), ("hour", .hour), ("daily", .daily)]

/-- The normalizations. -/
def normalizations : List (String × Normalization) := [("raw", .raw), ("adjusted", .adjusted)]

/-- The calendars. -/
def calendars : List (String × Calendar) :=
  [("always_on", .alwaysOn), ("nyse_weekdays", .exchangeWeekdays)]

/-- The order types. -/
def orderTypes : List (String × OrderType) :=
  [("market", .market), ("market_on_open", .marketOnOpen)]

/-- The order statuses. -/
def orderStatuses : List (String × OrderStatus) :=
  [("submitted", .submitted), ("filled", .filled), ("canceled", .canceled)]

/-- The buying-power policies. -/
def buyingPowers : List (String × BuyingPowerPolicy) :=
  [("enforce", .enforce), ("warn_only", .warnOnly)]

/-- The selection cadences. -/
def cadences : List (String × SelectionCadence) := [("every_step", .everyStep), ("daily", .daily)]

/-- The name of a value in a table of alternatives. -/
def choiceName {α : Type} [DecidableEq α] (alternatives : List (String × α)) (value : α) : String :=
  ((alternatives.find? fun a => a.2 = value).map Prod.fst).getD ""

/-- A value of a table of alternatives, by its name. -/
def ofChoice {α : Type} [DecidableEq α] (alternatives : List (String × α)) (value : α) : Json :=
  string (choiceName alternatives value)

/-- A release policy as a document. -/
def ofRelease : UnderlyingRelease → Json
  | .withContract => string "with_contract"
  | .retain => string "retain"
  | .afterSteps n => object [("after_steps", int n)]

/-- A date as a document. -/
def ofDate (d : Date) : Json := string d.text

/-- The form of a moment in documents: a `T` between date and time. -/
def momentPattern : List Civil.PatternItem :=
  [.field .year, .blanks, .literal '-', .field .month, .blanks, .literal '-', .field .day, .blanks,
   .literal 'T', .field .hour, .blanks, .literal ':', .field .minute, .blanks, .literal ':',
   .field .second, .fraction, .blanks]

/-- A moment as a document. -/
def ofDateTime (t : DateTime) : Json := string t.isoText

/-- An instant as a document. -/
def ofInstant (i : Instant) : Json :=
  ofFields [("time", ofDateTime i.time), ("resolution", ofChoice resolutions i.resolution)]

/-- A symbol as a document. -/
def ofSymbol (s : Symbol) : Json := string s.text

/-- An amount or null. -/
def ofIntOption : Option Int → Json
  | none => null
  | some n => int n

/-- A text or null. -/
def ofStringOption : Option String → Json
  | none => null
  | some s => string s

end MarketReplay.Json

namespace MarketReplay.Decoder

/-- The names of the release policies. -/
def releaseNames : List String := ["with_contract", "after_steps", "retain"]

/-- A release policy: two names, or the name `after_steps` with a number of 32 bits. -/
def release : Decoder UnderlyingRelease := fun j => do
  match ← alternative j with
  | ("with_contract", payload) => do
    noPayload payload
    return .withContract
  | ("retain", payload) => do
    noPayload payload
    return .retain
  | ("after_steps", some steps) => return .afterSteps (← natBits 32 steps)
  | ("after_steps", none) => throw (.invalidType "unit variant" "newtype variant")
  | (name, _) => throw (.unknownVariant name releaseNames)

/-- A value that is written as a string; `expected` tells what strings it has. -/
def written {α ε : Type} (expected : String) (reason : ε → String)
    (read : String → Except ε α) : Decoder α
  | .string s => (read s).mapError fun e => .unreadable (reason e)
  | j => mistyped expected j

/-- A date. -/
def date : Decoder Date := written "a formatted date string" Civil.PatternError.message Date.read

/-- A moment. -/
def moment : Decoder DateTime :=
  written "a formatted date and time string" Civil.PatternError.message fun s =>
    Civil.readDateTime Json.momentPattern s.toList

/-- An instant: a record of its moment and resolution. -/
def instant : Decoder Instant :=
  RecordType.decode ⟨"Instant", ["time", "resolution"], false⟩ fun r =>
    Instant.mk <$> r.required "time" moment <*> r.required "resolution" (choice Json.resolutions)

/-- A symbol, in its written form. -/
def symbol : Decoder Symbol := written "a string" SymbolError.message Symbol.parse

end MarketReplay.Decoder
