import MicrostructureEngine.Oms.Store
import MicrostructureEngine.Lib.Runs
import MicrostructureEngine.Lib.MapSum
import MicrostructureEngine.Oms.OrderMap
import MicrostructureEngine.Oms.Sequencer
import MicrostructureEngine.Oms.Settlement
import MicrostructureEngine.Oms.Atomicity
import MicrostructureEngine.Oms.Cascade
import MicrostructureEngine.Oms.Convergence
import MicrostructureEngine.Oms.Sharded
import MicrostructureEngine.Oms.Gaps
import MicrostructureEngine.Oms.Recovery
import MicrostructureEngine.Oms.Decode
import MicrostructureEngine.Oms.Replay
import MicrostructureEngine.Oms.Reservation
import MicrostructureEngine.Lib.Draining
import MicrostructureEngine.Oms.Journaling
import MicrostructureEngine.Oms.WalRun
import MicrostructureEngine.Oms.CrashRecovery
import MicrostructureEngine.Oms.JournalLimits
import MicrostructureEngine.Lib.LinearTable
import MicrostructureEngine.Lib.AllOrNothing
import MicrostructureEngine.Risk.Ledger
import MicrostructureEngine.Risk.ReservationTable
import MicrostructureEngine.Risk.Conservation
import MicrostructureEngine.Lib.Contention
import MicrostructureEngine.Risk.Concurrent
import MicrostructureEngine.Oms.RateLimiter
import MicrostructureEngine.Oms.RateBound
import MicrostructureEngine.Oms.ReleaseOrder
import MicrostructureEngine.Oms.SelfTrade
import MicrostructureEngine.Risk.Rebuild
import MicrostructureEngine.Lib.Rotation
import MicrostructureEngine.Oms.Scheduler
import MicrostructureEngine.Oms.Fairness
import MicrostructureEngine.Oms.Dispatch
import MicrostructureEngine.Oms.Venue
import MicrostructureEngine.Oms.ExposureGates
import MicrostructureEngine.Oms.Router
import MicrostructureEngine.Oms.CreateTrace
import MicrostructureEngine.Oms.Coverage
import MicrostructureEngine.Oms.OpenOrders
import MicrostructureEngine.Oms.ReplaceStep
import MicrostructureEngine.Risk.Positions
import MicrostructureEngine.Oms.PositionBook
import MicrostructureEngine.Lib.LittleEndian
import MicrostructureEngine.Lib.Framing
import MicrostructureEngine.Persist.Framing
import MicrostructureEngine.Persist.Boundary
import MicrostructureEngine.Core.Event
import MicrostructureEngine.Persist.WalReader
import MicrostructureEngine.Persist.Scanning
import MicrostructureEngine.Persist.WalWriter
import MicrostructureEngine.Persist.Repair
import MicrostructureEngine.Persist.CrashAtomicity
import MicrostructureEngine.Lib.Outputs
import MicrostructureEngine.Persist.ReadCalls
import MicrostructureEngine.Persist.SegmentCatalog
import MicrostructureEngine.Feed.ReplayAdapter
import MicrostructureEngine.Feed.Terminal
import MicrostructureEngine.Feed.Completeness
import MicrostructureEngine.Lib.SegmentedLog
import MicrostructureEngine.Persist.WalDirectory
import MicrostructureEngine.Persist.WrittenSegments
import MicrostructureEngine.Persist.ExecutionWal
import MicrostructureEngine.Feed.Tailer
import MicrostructureEngine.Feed.Tailing
import MicrostructureEngine.Feed.FailClosed
import MicrostructureEngine.Persist.LiveRecorder
import MicrostructureEngine.Oms.RecoveryWorkflow
import MicrostructureEngine.Oms.ReadyGate
import MicrostructureEngine.Oms.Resolution
import MicrostructureEngine.Oms.RestartRecovery
import MicrostructureEngine.Oms.RestartGate
import MicrostructureEngine.Lib.SlotTable
import MicrostructureEngine.Lib.KeyedBoard
import MicrostructureEngine.Exec.Account
import MicrostructureEngine.Exec.Models
import MicrostructureEngine.Exec.PaperBroker
import MicrostructureEngine.Exec.ModeOrdering
import MicrostructureEngine.Exec.BrokerSteps
import MicrostructureEngine.Exec.MarginOverflow
import MicrostructureEngine.Exec.OrderSlots
import MicrostructureEngine.Exec.FillSafety
import MicrostructureEngine.Exec.AccountIdentities
import MicrostructureEngine.Exec.Refusals
import MicrostructureEngine.Exec.OrderPaths
import MicrostructureEngine.Exec.Booking
import MicrostructureEngine.Exec.FillHistory
import MicrostructureEngine.Exec.FillGates
import MicrostructureEngine.Exec.EntryTickets
import MicrostructureEngine.Exec.HaltedTrading
import MicrostructureEngine.Exec.Journalling
import MicrostructureEngine.Exec.FillConservation
import MicrostructureEngine.Exec.ReduceOnly
import MicrostructureEngine.Exec.ReservedMargin
import MicrostructureEngine.Oms.PaperVenue
import MicrostructureEngine.Oms.ReportReplay
import MicrostructureEngine.Oms.Reconstruction
import MicrostructureEngine.Oms.JournalReplay
import MicrostructureEngine.Oms.JournalFreshness
import MicrostructureEngine.Oms.BrokerJournal
import MicrostructureEngine.Oms.BrokerRecovery
import MicrostructureEngine.Strategy.L1Scalpers
import MicrostructureEngine.Strategy.Lifecycle
import MicrostructureEngine.Strategy.Reversal
import MicrostructureEngine.Strategy.BaselineScalper
import MicrostructureEngine.Bridge.ExecBridge
import MicrostructureEngine.Bridge.PositionAgreement
import MicrostructureEngine.Replay.StrategyReplayEngine
import MicrostructureEngine.Replay.FlatBook
import MicrostructureEngine.Oms.StreamingRecovery
import MicrostructureEngine.Lib.HashSlots
import MicrostructureEngine.Oms.DuplicateHashes
import MicrostructureEngine.Oms.OrderReconciliation
import MicrostructureEngine.Oms.PositionReconciliation
import MicrostructureEngine.Lib.BestFirst
import MicrostructureEngine.Book.OrderBook
import MicrostructureEngine.Book.Ladders
import MicrostructureEngine.Book.BoundedMap
import MicrostructureEngine.Book.DepthWindow
import MicrostructureEngine.Exec.AveragePrices
import MicrostructureEngine.Risk.Attribution
import MicrostructureEngine.Lib.PartitionPoint
import MicrostructureEngine.Evaluation.Backtest
import MicrostructureEngine.Evaluation.NoLookAhead
import MicrostructureEngine.Lib.KeyedFold
import MicrostructureEngine.Dashboard.Analytics
import MicrostructureEngine.Dashboard.Joins
import MicrostructureEngine.Dashboard.ForwardReturns
import MicrostructureEngine.Lib.Limbs
import MicrostructureEngine.Exec.WordDraws
import MicrostructureEngine.Core.RingBuffer
import MicrostructureEngine.Core.SlabPool
import MicrostructureEngine.Oms.EmptyCells
import MicrostructureEngine.Lib.Decimal
import MicrostructureEngine.Lib.IndexRuns
import MicrostructureEngine.Persist.SegmentNames
import MicrostructureEngine.Lib.Layout
import MicrostructureEngine.Lib.PacedStream
import MicrostructureEngine.Lib.Watermark
import MicrostructureEngine.Core.EventHeader
import MicrostructureEngine.Feed.Protocol
import MicrostructureEngine.Feed.PipeEndpoint
import MicrostructureEngine.Feed.PipeAdapter
import MicrostructureEngine.Feed.Ingress
import MicrostructureEngine.Feed.TerminalClock
import MicrostructureEngine.Feed.FeedBridge
import MicrostructureEngine.Feed.FeedSessions
import MicrostructureEngine.Feed.FeedWatermarks
import MicrostructureEngine.Persist.SegmentHeaders
import MicrostructureEngine.Feed.CaptureRecorder
import MicrostructureEngine.Feed.Capture
import MicrostructureEngine.Feed.CaptureReplay
import MicrostructureEngine.Lib.BlockStream
import MicrostructureEngine.Risk.LimitsVerifier
import MicrostructureEngine.Oms.Desk
import MicrostructureEngine.Oms.ShardTransparency
import MicrostructureEngine.Bridge.FastPath
import MicrostructureEngine.Bridge.Lockstep
import MicrostructureEngine.Bridge.RaisedIntents
import MicrostructureEngine.Bridge.RetryConvergence
import MicrostructureEngine.Lib.DurableFiles
import MicrostructureEngine.Risk.KillSwitch
import MicrostructureEngine.Lib.BestCell
import MicrostructureEngine.Telemetry.Histogram
import MicrostructureEngine.Lib.Drawdown
import MicrostructureEngine.Replay.TradeLog
import MicrostructureEngine.Feed.CursorFile
