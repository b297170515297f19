import MarketReplay.Digest.NameId
import MarketReplay.Portfolio
import MarketReplay.Run.Settings
import MarketReplay.Universe.Changes

/-!
# Results of a run

What a finished or aborted run leaves: its final cash, holdings and orders, the event log, the
merged membership changes, and the value of the portfolio at the end of each date.
-/

namespace MarketReplay

/-- A callback failed; the run stopped there. -/
structure RunFailure where
  time : Instant
  callback : String
  message : String
  deriving DecidableEq

/-- The text of the failure. -/
def RunFailure.text (f : RunFailure) : String :=
  "unhandled strategy error in " ++ f.callback ++ " at " ++ f.time.text ++ ": " ++ f.message

/-- The value of the portfolio at the end of a date. -/
structure EquityPoint where
  date : Date
  equity : Int
  cash : Int
  deriving DecidableEq

/-- A position at the end of a run. -/
structure HoldingSummary where
  symbol : Symbol
  quantity : Int
  averagePrice : Int
  deriving DecidableEq

/-- What a run leaves. -/
structure RunResult where
  replayId : String
  strategy : String
  settings : RunSettings
  finalCash : Int
  realized : Int
  holdings : List HoldingSummary
  orders : List Order
  orderEvents : List OrderEvent
  changes : Changes
  equityCurve : List EquityPoint
  warnings : List String
  steps : Nat
  failure : Option RunFailure

/-- The identity of runs with the same strategy name and settings. -/
def replayId (strategy : String) (settings : RunSettings) : String :=
  Digest.nameId (strategy ++ "|" ++ settings.description)

namespace RunResult

/-- Whether no callback failed. -/
def isComplete (r : RunResult) : Bool := r.failure.isNone

/-- The fills in the event log. -/
def fills (r : RunResult) : List OrderEvent := r.orderEvents.filter OrderEvent.isFill

/-- The last value of the portfolio, or its cash before the first date ends. -/
def finalEquity (r : RunResult) : Int :=
  match r.equityCurve.getLast? with
  | some p => p.equity
  | none => r.finalCash

end RunResult

end MarketReplay
