import MarketReplay.Calendar
import MarketReplay.Instant
import MarketReplay.Order.Basic
import MarketReplay.Universe

/-!
# Settings of a run

The plain settings of a run, their written form, and the checks that every run passes first.
-/

namespace MarketReplay

/-- The settings of a run: its first and last date, cash, clock, prices and policies. -/
structure RunSettings where
  start : Date
  stop : Date
  initialCash : Int
  resolution : Resolution
  normalization : Normalization
  calendar : Calendar
  buyingPower : BuyingPowerPolicy
  release : UnderlyingRelease
  cadence : SelectionCadence
  deriving DecidableEq

/-- Why a run is refused before its first step. -/
inductive ConfigurationError where
  | invalidDateRange (start stop : Date)
  | missingSelector
  | emptySelector
  | nonPositiveCash (initialCash : Int)
  deriving DecidableEq

/-- The text of the error. -/
def ConfigurationError.message : ConfigurationError → String
  | invalidDateRange start stop =>
    "invalid date range: end " ++ stop.text ++ " is before start " ++ start.text
  | missingSelector => "no universe selector configured"
  | emptySelector => "universe selector has no symbols"
  | nonPositiveCash cash => "initial cash must be positive, got " ++ Price.format cash

namespace RunSettings

/-- Settings with the default policies. -/
def ofDates (start stop : Date) (initialCash : Int) (resolution : Resolution) : RunSettings :=
  ⟨start, stop, initialCash, resolution, .raw, .exchangeWeekdays, .enforce, .withContract,
    .everyStep⟩

/-- The first date of the sample week, 2013-10-07. -/
def sampleStart : Date := ⟨735147, by decide, by decide⟩

/-- The last date of the sample week, 2013-10-11. -/
def sampleStop : Date := ⟨735151, by decide, by decide⟩

/-- A trading week by minutes with cash of a hundred thousand. -/
def sample : RunSettings := ofDates sampleStart sampleStop 100000000000 .minute

/-- The settings in order: the dates must not be reversed, and the cash must be positive. -/
def validate (s : RunSettings) : Except ConfigurationError Unit :=
  if s.stop < s.start then .error (.invalidDateRange s.start s.stop)
  else if s.initialCash ≤ 0 then .error (.nonPositiveCash s.initialCash)
  else .ok ()

/-- A resolution in the description of settings. -/
def resolutionTitle : Resolution → String
  | .tick => "Tick"
  | .second => "Second"
  | .minute => "Minute"
  | .hour => "Hour"
  | .daily => "Daily"

/-- A normalization in the description of settings. -/
def normalizationTitle : Normalization → String
  | .raw => "Raw"
  | .adjusted => "Adjusted"

/-- A calendar in the description of settings. -/
def calendarTitle : Calendar → String
  | .alwaysOn => "AlwaysOn"
  | .exchangeWeekdays => "NyseWeekdays"

/-- A buying-power policy in the description of settings. -/
def buyingPowerTitle : BuyingPowerPolicy → String
  | .enforce => "Enforce"
  | .warnOnly => "WarnOnly"

/-- A release policy in the description of settings. -/
def releaseTitle : UnderlyingRelease → String
  | .withContract => "WithContract"
  | .afterSteps n => "AfterSteps(" ++ toString n ++ ")"
  | .retain => "Retain"

/-- A cadence in the description of settings. -/
def cadenceTitle : SelectionCadence → String
  | .everyStep => "EveryStep"
  | .daily => "Daily"

/-- A description of named parts between braces. -/
def described (name : String) (parts : List (String × String)) : String :=
  name ++ " \x7b " ++ ", ".intercalate (parts.map fun p => p.1 ++ ": " ++ p.2) ++ " \x7d"

/-- The description of settings, from which the identity of a run derives. -/
def description (s : RunSettings) : String :=
  described "BacktestSettings"
    [("start", s.start.text),
     ("end", s.stop.text),
     ("initial_cash_micros", toString s.initialCash),
     ("resolution", resolutionTitle s.resolution),
     ("normalization", normalizationTitle s.normalization),
     ("calendar", calendarTitle s.calendar),
     ("buying_power", buyingPowerTitle s.buyingPower),
     ("underlying_release", releaseTitle s.release),
     ("selection_cadence", cadenceTitle s.cadence)]

end RunSettings

end MarketReplay
