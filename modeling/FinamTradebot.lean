import FinamTradebot.Runs
import FinamTradebot.DeltaCell
import FinamTradebot.Civil
import FinamTradebot.Interfaces
import FinamTradebot.Contract
import FinamTradebot.OrderBookState
import FinamTradebot.TradeFlow
import FinamTradebot.SpoofFilter
import FinamTradebot.SessionContext
import FinamTradebot.ConfluenceStrategy
import FinamTradebot.StrategyRunner
import FinamTradebot.StrategyCalls
import FinamTradebot.Mirror
import FinamTradebot.EntryDiscipline
import FinamTradebot.FreshFlow
import FinamTradebot.ClosingOrders
import FinamTradebot.OrdersInFlight
import FinamTradebot.SessionReset
import FinamTradebot.OpeningRange
import FinamTradebot.DailyReset
import FinamTradebot.FillShedding
import FinamTradebot.RolloverFeed
import FinamTradebot.RingHistory
import FinamTradebot.DailyHistory
import FinamTradebot.OpeningBias
import FinamTradebot.DiscountedSum
import FinamTradebot.FlowDecay
import FinamTradebot.MlofiReport
import FinamTradebot.SlidingWindow
import FinamTradebot.TradeWindows
import FinamTradebot.SpoofIsolation
import FinamTradebot.StreamDeltas
import FinamTradebot.EntryPrice
import FinamTradebot.SpscQueue
import FinamTradebot.RunnerQueue
import FinamTradebot.OrderClient
import FinamTradebot.FillTracking
import FinamTradebot.LastWrite
import FinamTradebot.MarketDataClient
import FinamTradebot.SymbolText
import FinamTradebot.BookReplay
import FinamTradebot.BookDeltas
import FinamTradebot.SpoofAttribution
import FinamTradebot.OrderIdentity
import FinamTradebot.OrderFlow
import FinamTradebot.FillDelivery
import FinamTradebot.Bot
import FinamTradebot.RiskManager
import FinamTradebot.ExpiryGate
import FinamTradebot.RiskAccounting
import FinamTradebot.RiskApproval
import FinamTradebot.TradingHalt
import FinamTradebot.PositionCap
import FinamTradebot.CircuitBreaker
import FinamTradebot.HighWaterMark
import FinamTradebot.OrderedDict
import FinamTradebot.MoexData
import FinamTradebot.HistorySeries
import FinamTradebot.HistoryBars
import FinamTradebot.EquityCurve
import FinamTradebot.Backtest
import FinamTradebot.BacktestRuns
import FinamTradebot.Slices
import FinamTradebot.Backoff
import FinamTradebot.StreamLoop
import FinamTradebot.Subscriptions
import FinamTradebot.DecimalText
import FinamTradebot.WireOrders
import FinamTradebot.HttpReply
import FinamTradebot.HealthServer
import FinamTradebot.HistoryFile
import FinamTradebot.OrderSizing
import FinamTradebot.RolloverClock
import FinamTradebot.TokenManager
import FinamTradebot.BacktestTrades
import FinamTradebot.BacktestOutcome
import FinamTradebot.OrderQueries
import FinamTradebot.Shutdown
import FinamTradebot.EntryBreakout
import FinamTradebot.Instruments
import FinamTradebot.DryRun
import FinamTradebot.MainOrders
import FinamTradebot.PolledAccount
