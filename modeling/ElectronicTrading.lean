import ElectronicTrading.Lib.Ring
import ElectronicTrading.Lib.Exec
import ElectronicTrading.Lib.Runs
import ElectronicTrading.Lib.Framing
import ElectronicTrading.Lib.Packed
import ElectronicTrading.Lib.Sequenced
import ElectronicTrading.Lib.Stable
import ElectronicTrading.Lib.SortedMap
import ElectronicTrading.Common.Types
import ElectronicTrading.Common.Mempool
import ElectronicTrading.Common.TCPSocket
import ElectronicTrading.Common.LockFreeQueue
import ElectronicTrading.Common.Proofs.QueueRuns
import ElectronicTrading.Common.Logging
import ElectronicTrading.Common.PriceTime
import ElectronicTrading.Common.PriceLadder
import ElectronicTrading.Common.BookPrinter
import ElectronicTrading.Common.Proofs.Fields
import ElectronicTrading.Common.Proofs.Blocks
import ElectronicTrading.Common.Proofs.PoolRuns
import ElectronicTrading.Common.Proofs.Layout
import ElectronicTrading.Common.Proofs.Printing
import ElectronicTrading.Common.Proofs.Link
import ElectronicTrading.Common.Proofs.Unlink
import ElectronicTrading.Common.Proofs.Orders
import ElectronicTrading.Common.Proofs.Views
import ElectronicTrading.Common.Proofs.Lists
import ElectronicTrading.Common.Proofs.Relocation
import ElectronicTrading.Exchange.Messages
import ElectronicTrading.Exchange.Wire
import ElectronicTrading.Exchange.OrderBook
import ElectronicTrading.Exchange.MatchingEngine
import ElectronicTrading.Exchange.Output
import ElectronicTrading.Exchange.EngineLoop
import ElectronicTrading.Exchange.MarketDataPublisher
import ElectronicTrading.Exchange.SnapshotSynthesizer
import ElectronicTrading.Exchange.LiveOrders
import ElectronicTrading.Exchange.OrderServer
import ElectronicTrading.Exchange.Reference
import ElectronicTrading.Exchange.Proofs.Fill
import ElectronicTrading.Exchange.Proofs.Requests
import ElectronicTrading.Exchange.Proofs.Steps
import ElectronicTrading.Exchange.Proofs.Answers
import ElectronicTrading.Exchange.Proofs.Leaves
import ElectronicTrading.Exchange.Proofs.Representation
import ElectronicTrading.Exchange.Proofs.Matching
import ElectronicTrading.Exchange.Proofs.Conservation
import ElectronicTrading.Exchange.Proofs.Slots
import ElectronicTrading.Exchange.Proofs.Tape
import ElectronicTrading.Exchange.Proofs.Priority
import ElectronicTrading.Exchange.Proofs.Limits
import ElectronicTrading.Exchange.Proofs.Index
import ElectronicTrading.Exchange.Proofs.Sessions
import ElectronicTrading.Exchange.Proofs.Untrusted
import ElectronicTrading.Exchange.Proofs.Addressed
import ElectronicTrading.Exchange.Proofs.Sequencing
import ElectronicTrading.Exchange.Proofs.Publishing
import ElectronicTrading.Exchange.Proofs.Synthesizer
import ElectronicTrading.Exchange.Proofs.Cancelling
import ElectronicTrading.Exchange.Proofs.SortCheck
import ElectronicTrading.Trading.MarketOrderBook
import ElectronicTrading.Trading.MarketDataConsumer
import ElectronicTrading.Trading.OrderGateway
import ElectronicTrading.Trading.OrderManager
import ElectronicTrading.Trading.PositionKeeper
import ElectronicTrading.Trading.RiskManager
import ElectronicTrading.Trading.FeatureEngine
import ElectronicTrading.Trading.TradeEngine
import ElectronicTrading.Trading.Proofs.Mirror
import ElectronicTrading.Trading.Proofs.Lockstep
import ElectronicTrading.Trading.Proofs.Tidy
import ElectronicTrading.Trading.Proofs.Clear
import ElectronicTrading.Trading.Proofs.Replica
import ElectronicTrading.Trading.Proofs.Listed
import ElectronicTrading.Trading.Proofs.Snapshot
import ElectronicTrading.Trading.Proofs.Top
import ElectronicTrading.Trading.Proofs.RoundTrip
import ElectronicTrading.Trading.Proofs.Requested
import ElectronicTrading.Trading.Proofs.Earnings
import ElectronicTrading.Trading.Proofs.LossLimit
import ElectronicTrading.Trading.Proofs.Recovery
import ElectronicTrading.Trading.Proofs.Isolation
import ElectronicTrading.Trading.Proofs.PositionLimit
import ElectronicTrading.Trading.Proofs.Agreement
import ElectronicTrading.Trading.Proofs.Outstanding
import ElectronicTrading.Trading.Proofs.TradingSession
import ElectronicTrading.Trading.Proofs.Strategies
import ElectronicTrading.Trading.Proofs.RequestLog
import ElectronicTrading.Trading.Proofs.Settlement
import ElectronicTrading.Trading.Proofs.Wires
import ElectronicTrading.Trading.Proofs.Wired
import ElectronicTrading.Trading.Proofs.WiredStrategy
import ElectronicTrading.Trading.Proofs.StrategySession
import ElectronicTrading.Trading.Proofs.LiveSnapshot
import ElectronicTrading.Trading.Proofs.Feed
import ElectronicTrading.Trading.Proofs.Delivered
import ElectronicTrading.Trading.Proofs.Combined
import ElectronicTrading.Trading.Proofs.ClientBooks
import ElectronicTrading.Trading.Proofs.Wraps
import ElectronicTrading.Trading.Proofs.FairPrice
