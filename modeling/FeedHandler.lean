import FeedHandler.Core.Types
import FeedHandler.Core.Crc32
import FeedHandler.Core.Binary64
import FeedHandler.Core.SpscRing
import FeedHandler.Core.SpscInterleaving
import FeedHandler.Core.SpmcSeqlockRing
import FeedHandler.Core.SpmcReader
import FeedHandler.Core.SpmcSnapshot
import FeedHandler.Core.SpmcInterleaving
import FeedHandler.Lib.Run
import FeedHandler.Lib.OrderedMap
import FeedHandler.Lib.LowerBound
import FeedHandler.Lib.BigEndian
import FeedHandler.Lib.LittleEndian
import FeedHandler.Lib.FlatMap
import FeedHandler.Lib.ProbeTable
import FeedHandler.Lib.ProbeTableSum
import FeedHandler.Lib.ProbeTableRoom
import FeedHandler.Lib.TagRing
import FeedHandler.Lib.KWayMerge
import FeedHandler.Lib.LinkedQueue
import FeedHandler.Lib.FirstBest
import FeedHandler.Lib.SlidingWindow
import FeedHandler.Lib.StableSort
import FeedHandler.Lib.ListBlocks
import FeedHandler.Lib.SharedProgram
import FeedHandler.Lib.AppendFile
import FeedHandler.Lib.StateTable
import FeedHandler.Lib.PriorityAllocation
import FeedHandler.Phase2.VenueFeed
import FeedHandler.Phase2.SequenceTracker
import FeedHandler.Phase2.Recovery
import FeedHandler.Phase2.RecoveryLookup
import FeedHandler.Phase2.DeterministicMerger
import FeedHandler.Phase2.MergeOrder
import FeedHandler.Phase2.Pipeline
import FeedHandler.Phase2.AbArbiter
import FeedHandler.Phase2.PipelineStep
import FeedHandler.Phase2.PipelineInOrder
import FeedHandler.Phase2.PipelineInvariant
import FeedHandler.Phase2.PipelineLedger
import FeedHandler.Phase2.PipelineRecovery
import FeedHandler.Phase2.PipelineArrival
import FeedHandler.Phase2.PipelineDeterminism
import FeedHandler.Phase2.AbArbiterRun
import FeedHandler.Phase2.AbArbiterDelivery
import FeedHandler.Phase2.AbArbiterUnseen
import FeedHandler.Runtime.ShardedPipeline
import FeedHandler.Runtime.ShardedRuns
import FeedHandler.Runtime.ShardedShutdown
import FeedHandler.Runtime.ShardedReaggregation
import FeedHandler.Runtime.ShardedSequencing
import FeedHandler.Journal.LiveReplay
import FeedHandler.Journal.JournalFormat
import FeedHandler.Journal.JournalWriter
import FeedHandler.Journal.JournalReader
import FeedHandler.Journal.JournalRoundTrip
import FeedHandler.Journal.TornTail
import FeedHandler.Phase3.OrderBookEngine
import FeedHandler.Phase3.BookReconciler
import FeedHandler.Phase3.OrderBookSpec
import FeedHandler.Phase3.OrderTableSession
import FeedHandler.Phase3.NbboConsolidator
import FeedHandler.Phase3.NbboBest
import FeedHandler.Phase3.NbboReplay
import FeedHandler.Phase3.NbboProvenance
import FeedHandler.Phase3.FeaturePipeline
import FeedHandler.Phase3.FeatureStates
import FeedHandler.Phase3.VpinBuckets
import FeedHandler.Phase3.VpinRatio
import FeedHandler.Phase3.RollingOfi
import FeedHandler.Phase3.PriceLevels
import FeedHandler.Phase3.BookConservation
import FeedHandler.Phase3.VenueIsolation
import FeedHandler.Phase3.IntrusiveOrderBook
import FeedHandler.Phase3.IntrusiveQueues
import FeedHandler.Phase3.IntrusiveInvariant
import FeedHandler.Phase3.IntrusiveRuns
import FeedHandler.Phase3.IntrusiveBest
import FeedHandler.Phase3.IntrusiveRefinement
import FeedHandler.Proto.Itch50
import FeedHandler.Proto.Itch50Simd
import FeedHandler.Proto.IexDeep
import FeedHandler.Proto.CboePitch
import FeedHandler.Proto.Mdp3
import FeedHandler.Phase2.Mdp3Sequencing
import FeedHandler.Phase3.OrderLife
import FeedHandler.Phase3.ItchBook
import FeedHandler.Phase3.ItchBookExact
import FeedHandler.Phase3.IexBook
import FeedHandler.Wire.Framing
import FeedHandler.Wire.FeedSession
import FeedHandler.Wire.FrameSequences
import FeedHandler.Phase4.SimMatchingEngine
import FeedHandler.Phase4.PnlAccountant
import FeedHandler.Phase4.PnlIdentity
import FeedHandler.Phase4.PnlEquity
import FeedHandler.Live.Lowering
import FeedHandler.Live.ResyncStateMachine
import FeedHandler.Live.ResyncGaps
import FeedHandler.Live.ResyncMirror
import FeedHandler.Phase4.SimMatchingInvariant
import FeedHandler.Phase4.SimFillModel
import FeedHandler.Phase4.Strategy
import FeedHandler.Phase4.QuoteMirror
import FeedHandler.Phase4.FillCausality
import FeedHandler.Phase4.StrategyQuotes
import FeedHandler.Phase4.BacktestRunner
import FeedHandler.Phase4.BacktestConsistency
import FeedHandler.Research.StrategyEngine
import FeedHandler.Research.StrategyAgreement
import FeedHandler.Research.StrategyEngineQuotes
import FeedHandler.Research.OfiStrategy
import FeedHandler.Research.OfiQuotes
import FeedHandler.Research.ExperimentRunner
import FeedHandler.Research.ExperimentDesk
import FeedHandler.Research.OfiLimit
import FeedHandler.Research.OfiAgreement
import FeedHandler.Research.LabelBuilder
import FeedHandler.Research.PurgedCv
import FeedHandler.Research.LabelLeakage
import FeedHandler.Research.NoLookAhead
import FeedHandler.Lib.ReorderWindow
import FeedHandler.Phase2.SequenceRefinement
import FeedHandler.Lib.ProbeTableMap
import FeedHandler.Phase3.OrderTableRefinement
import FeedHandler.Phase3.LevelOrder
import FeedHandler.Phase3.BookStore
import FeedHandler.Phase3.ChangedTop
import FeedHandler.Phase3.RejectedOrder
import FeedHandler.Phase3.PoolExhaustion
import FeedHandler.Proto.WireNarrowing
import FeedHandler.Lib.DigitPrefix
import FeedHandler.Proto.Mdp3Symbols
import FeedHandler.Lib.LengthPrefixed
import FeedHandler.Wire.FramingExact
import FeedHandler.Lib.ByteSpan
import FeedHandler.Proto.Mdp3Reads
import FeedHandler.Proto.Mdp3Composition
import FeedHandler.Service.SymbolCodec
import FeedHandler.Service.TickReplay
import FeedHandler.Service.NbboQuery
import FeedHandler.Lib.CrcRegister
import FeedHandler.Core.CrcCoverage
import FeedHandler.Journal.CorruptRecords
import FeedHandler.Journal.AcceptedJournals
import FeedHandler.Journal.AlteredRecord
import FeedHandler.Journal.RecordWriter
import FeedHandler.Journal.RecordNumbering
import FeedHandler.Wire.ItchMoldUdp
import FeedHandler.Wire.MoldRoundTrip
import FeedHandler.Wire.ItchProducer
import FeedHandler.Lib.DecimalText
import FeedHandler.Lib.TextSearch
import FeedHandler.Live.SnapshotSidecar
import FeedHandler.Live.SidecarRoundTrip
import FeedHandler.Lib.TextTokens
import FeedHandler.Live.WireParse
import FeedHandler.Live.WireGrammar
import FeedHandler.Live.FrameGrammar
import FeedHandler.Lib.SealedRecord
import FeedHandler.Journal.NbboJournalReader
import FeedHandler.Journal.NbboRoundTrip
import FeedHandler.Phase3.NbboTape
import FeedHandler.Lib.LimitedStream
import FeedHandler.Service.ReplayCatalog
import FeedHandler.Service.TickStream
import FeedHandler.Service.RecordedTape
import FeedHandler.Journal.JournalDiff
import FeedHandler.Transport.AfxdpFeedSession
import FeedHandler.Journal.Mdp3Replay
import FeedHandler.Journal.ItchToJournal
import FeedHandler.Journal.JournalReplay
import FeedHandler.Journal.CrashDurability
import FeedHandler.Phase2.JitBridge
import FeedHandler.Phase3.TimePriority
import FeedHandler.Phase3.ItchPriority
import FeedHandler.Phase2.EventOrigins
import FeedHandler.Phase2.AbFailover
import FeedHandler.Lib.HeadedRecords
import FeedHandler.Phase2.FeedMerge
