import MarketReplay.Csv.Writer
import MarketReplay.Run.Document

/-!
# Artifacts of a run

A run is written as four files: tables of its orders, of its order events and of its equity curve,
and a manifest that names them and sums the run up.
-/

namespace MarketReplay

/-- The sum of a run. -/
structure RunSummary where
  steps : Nat
  orders : Nat
  fills : Nat
  finalCash : String
  finalEquity : String
  realized : String
  complete : Bool
  error : Option String
  warnings : List String

namespace RunSummary

/-- The sum of a result. -/
def ofResult (r : RunResult) : RunSummary where
  steps := r.steps
  orders := r.orders.length
  fills := r.fills.length
  finalCash := Price.format r.finalCash
  finalEquity := Price.format r.finalEquity
  realized := Price.format r.realized
  complete := r.isComplete
  error := r.failure.map RunFailure.text
  warnings := r.warnings

/-- The document of a sum. -/
def toJson (s : RunSummary) : Json :=
  .ofFields
    [("steps", .int s.steps),
     ("orders", .int s.orders),
     ("fills", .int s.fills),
     ("final_cash", .string s.finalCash),
     ("final_equity", .string s.finalEquity),
     ("realized_pnl", .string s.realized),
     ("complete", .bool s.complete),
     ("error", .ofStringOption s.error),
     ("warnings", .array (s.warnings.map .string))]

end RunSummary

namespace Artifacts

/-- The file of the manifest. -/
def manifestFile : String := "manifest.json"

/-- The file of the orders. -/
def ordersFile : String := "orders.csv"

/-- The file of the order events. -/
def orderEventsFile : String := "order_events.csv"

/-- The file of the equity curve. -/
def equityCurveFile : String := "equity_curve.csv"

/-- The version of the manifest's form. -/
def schemaVersion : Int := 1

/-- The columns of the orders. -/
def orderHeader : List String :=
  ["order_id", "symbol", "quantity", "order_type", "status", "submitted", "fill_time", "fill_price",
   "tag"]

/-- The row of an order. -/
def orderRow (o : Order) : List String :=
  [toString o.id, o.symbol.text, toString o.quantity, o.orderType.name, o.status.name,
   o.submitted.text, (o.fillTime.map DateTime.text).getD "", (o.fillPrice.map Price.format).getD "",
   o.tag.getD ""]

/-- The columns of the order events. -/
def orderEventHeader : List String :=
  ["seq", "order_id", "symbol", "quantity", "status", "time", "fill_price"]

/-- The row of an order event. -/
def orderEventRow (e : OrderEvent) : List String :=
  [toString e.seq, toString e.orderId, e.symbol.text, toString e.quantity, e.status.name,
   e.time.text, (e.fillPrice.map Price.format).getD ""]

/-- The columns of the equity curve. -/
def equityHeader : List String := ["date", "equity", "cash"]

/-- The row of a sample. -/
def equityRow (p : EquityPoint) : List String :=
  [p.date.text, Price.format p.equity, Price.format p.cash]

/-- The table of the orders. -/
def ordersText (r : RunResult) : String := Csv.tableText (orderHeader :: r.orders.map orderRow)

/-- The table of the order events. -/
def orderEventsText (r : RunResult) : String :=
  Csv.tableText (orderEventHeader :: r.orderEvents.map orderEventRow)

/-- The table of the equity curve. -/
def equityCurveText (r : RunResult) : String :=
  Csv.tableText (equityHeader :: r.equityCurve.map equityRow)

/-- What identifies one execution of a run. -/
structure Identity where
  runId : String
  createdAt : String
  configHash : String
  sourceHash : String

/-- The fields of the manifest that do not depend on the execution's number and moment. -/
def manifestFields (r : RunResult) (configHash sourceHash : String) : List (String × Json) :=
  [("schema_version", .int schemaVersion),
   ("replay_id", .string r.replayId),
   ("strategy", .string r.strategy),
   ("git_hash", .string sourceHash),
   ("config_hash", .string configHash),
   ("settings", r.settings.toJson),
   ("summary", (RunSummary.ofResult r).toJson),
   ("artifacts", .ofFields
     [("manifest_json", .string manifestFile),
      ("orders_csv", .string ordersFile),
      ("order_events_csv", .string orderEventsFile),
      ("equity_curve_csv", .string equityCurveFile)])]

/-- The manifest. -/
def manifest (r : RunResult) (identity : Identity) : Json :=
  .ofFields (("run_id", .string identity.runId) :: ("created_at_utc", .string identity.createdAt) ::
    manifestFields r identity.configHash identity.sourceHash)

/-- The files of a run by name. -/
def files (r : RunResult) (identity : Identity) : List (String × String) :=
  [(ordersFile, ordersText r),
   (orderEventsFile, orderEventsText r),
   (equityCurveFile, equityCurveText r),
   (manifestFile, (manifest r identity).pretty ++ "\n")]

end Artifacts

end MarketReplay
