import MarketReplay.Json.Choices
import MarketReplay.Run.Result

/-!
# Documents of a run

Settings are read from and written to documents: a closed record of which all fields but the dates
and the cash may be left out. Orders, events and samples are written to documents.
-/

namespace MarketReplay

namespace RunSettings

/-- The record of settings. -/
def recordType : RecordType where
  title := "BacktestSettings"
  names := ["start", "end", "initial_cash_micros", "resolution", "normalization", "calendar",
    "buying_power", "underlying_release", "selection_cadence"]
  closed := true

/-- The settings of a document. -/
def decode : Decoder RunSettings :=
  recordType.decode fun r =>
    RunSettings.mk <$> r.required "start" Decoder.date
      <*> r.required "end" Decoder.date
      <*> r.required "initial_cash_micros" Decoder.int64
      <*> r.withDefault "resolution" .minute (Decoder.choice Json.resolutions)
      <*> r.withDefault "normalization" .raw (Decoder.choice Json.normalizations)
      <*> r.withDefault "calendar" .exchangeWeekdays (Decoder.choice Json.calendars)
      <*> r.withDefault "buying_power" .enforce (Decoder.choice Json.buyingPowers)
      <*> r.withDefault "underlying_release" .withContract Decoder.release
      <*> r.withDefault "selection_cadence" .everyStep (Decoder.choice Json.cadences)

/-- The document of settings. -/
def toJson (s : RunSettings) : Json :=
  .ofFields
    [("start", .ofDate s.start),
     ("end", .ofDate s.stop),
     ("initial_cash_micros", .int s.initialCash),
     ("resolution", .ofChoice Json.resolutions s.resolution),
     ("normalization", .ofChoice Json.normalizations s.normalization),
     ("calendar", .ofChoice Json.calendars s.calendar),
     ("buying_power", .ofChoice Json.buyingPowers s.buyingPower),
     ("underlying_release", .ofRelease s.release),
     ("selection_cadence", .ofChoice Json.cadences s.cadence)]

end RunSettings

/-- The document of an order. -/
def Order.toJson (o : Order) : Json :=
  .ofFields
    [("id", .int o.id),
     ("symbol", .ofSymbol o.symbol),
     ("quantity", .int o.quantity),
     ("order_type", .ofChoice Json.orderTypes o.orderType),
     ("submitted", .ofInstant o.submitted),
     ("status", .ofChoice Json.orderStatuses o.status),
     ("fill_price_micros", .ofIntOption o.fillPrice),
     ("fill_time", .ofStringOption (o.fillTime.map DateTime.isoText)),
     ("tag", .ofStringOption o.tag)]

/-- The document of an order event. -/
def OrderEvent.toJson (e : OrderEvent) : Json :=
  .ofFields
    [("order_id", .int e.orderId),
     ("symbol", .ofSymbol e.symbol),
     ("quantity", .int e.quantity),
     ("status", .ofChoice Json.orderStatuses e.status),
     ("submitted", .ofInstant e.submitted),
     ("time", .ofDateTime e.time),
     ("fill_price_micros", .ofIntOption e.fillPrice),
     ("fill_time", .ofStringOption (e.fillTime.map DateTime.isoText)),
     ("seq", .int e.seq)]

/-- The document of a sample of the portfolio. -/
def EquityPoint.toJson (p : EquityPoint) : Json :=
  .ofFields
    [("date", .ofDate p.date), ("equity_micros", .int p.equity), ("cash_micros", .int p.cash)]

/-- The document of a position. -/
def HoldingSummary.toJson (h : HoldingSummary) : Json :=
  .ofFields
    [("symbol", .ofSymbol h.symbol),
     ("quantity", .int h.quantity),
     ("average_price_micros", .int h.averagePrice)]

end MarketReplay
