import MarketReplay.Json.Reader
import MarketReplay.Main
import MarketReplay.Strategy.Script
import MarketReplay.Proofs.Order.Lifecycle
import MarketReplay.Proofs.Run.NoLookAhead
import MarketReplay.Proofs.Run.Reconciliation
import MarketReplay.Proofs.Universe.Records
import MarketReplay.Proofs.Universe.History
import MarketReplay.Proofs.Universe.Subscriptions
import MarketReplay.Proofs.Run.Announcements
import MarketReplay.Proofs.Tape.AsOf
import MarketReplay.Proofs.Run.OrderSteps
import MarketReplay.Proofs.Run.Chronology
import MarketReplay.Proofs.Run.MarketFills
import MarketReplay.Proofs.Calendar.Sessions
import MarketReplay.Proofs.Tape.Openings
import MarketReplay.Proofs.Run.OpeningFills
import MarketReplay.Proofs.Schedule.Scan
import MarketReplay.Proofs.Schedule.Requests
import MarketReplay.Proofs.Schedule.History
import MarketReplay.Proofs.Run.Journals
import MarketReplay.Proofs.Run.Completion
import MarketReplay.Proofs.Run.Dispatch
import MarketReplay.Proofs.Run.Deliveries
import MarketReplay.Proofs.Tape.Prints
import MarketReplay.Proofs.Run.BuyingPower
import MarketReplay.Proofs.Run.FillTimes
import MarketReplay.Proofs.Universe.Release
import MarketReplay.Proofs.Universe.Cadence
import MarketReplay.Proofs.Run.Cadence
import MarketReplay.Proofs.Portfolio.AverageCost
import MarketReplay.Proofs.Json.Leaves
import MarketReplay.Proofs.Config.UnusedKeys
import MarketReplay.Proofs.Price.Decimals
import MarketReplay.Proofs.Symbol.RoundTrip
import MarketReplay.Proofs.Run.OpenOrders
import MarketReplay.Proofs.Universe.Retention
import MarketReplay.Proofs.Strategy.Liquidation
import MarketReplay.Proofs.Run.StepGrid
import MarketReplay.Proofs.Json.Ordered
import MarketReplay.Proofs.Json.Paths
import MarketReplay.Proofs.Json.Layers
import MarketReplay.Proofs.Json.PointerTexts
import MarketReplay.Proofs.Config.UnusedReport
import MarketReplay.Proofs.Run.DueSessions
import MarketReplay.Proofs.Calendar.Easter
import MarketReplay.Proofs.Civil.DateRanges
import MarketReplay.Proofs.Calendar.Holidays
import MarketReplay.Proofs.Reordering
import MarketReplay.Proofs.Csv.Characters
import MarketReplay.Proofs.Tape.LoadOrder
import MarketReplay.Proofs.Tape.RowOrder
import MarketReplay.Proofs.Portfolio.Exactness
import MarketReplay.Proofs.Schedule.Punctual
import MarketReplay.Proofs.Run.GridInstants
import MarketReplay.Proofs.Run.ClosingHours
import MarketReplay.Proofs.Run.DailyOrders
import MarketReplay.Proofs.Portfolio.MeanPrice
import MarketReplay.Proofs.Csv.Lines
import MarketReplay.Proofs.Tape.BadRows
import MarketReplay.Proofs.Civil.Setbacks
import MarketReplay.Proofs.Tape.UniversalStamps
