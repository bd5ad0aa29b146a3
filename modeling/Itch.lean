import Itch.AddOrderDecode
import Itch.BboCache
import Itch.BboCacheInvariant
import Itch.BboReaders
import Itch.BlockMove
import Itch.BookBuilder
import Itch.BookSession
import Itch.Bytes
import Itch.Codec
import Itch.CodecFields
import Itch.CodecRoundTrip
import Itch.CommandLine
import Itch.CrowdedLevel
import Itch.CtrlGroup
import Itch.CtrlGroupLanes
import Itch.CtrlGroupSwar
import Itch.DepthProfiler
import Itch.DepthProfilerRuns
import Itch.EngineBuilds
import Itch.EngineCalls
import Itch.EngineCommute
import Itch.EngineEffects
import Itch.EngineLedger
import Itch.EngineLevels
import Itch.EngineMoves
import Itch.EngineRefines
import Itch.EngineReorder
import Itch.EngineRoom
import Itch.EngineRuns
import Itch.EngineSearches
import Itch.EngineSteps
import Itch.EngineTable
import Itch.FeedBuilds
import Itch.FeedCounters
import Itch.FeedHandler
import Itch.FeedHandlerInvariant
import Itch.FeedMarket
import Itch.FeedSession
import Itch.FeedThreads
import Itch.FrameRecords
import Itch.Frames
import Itch.FullSide
import Itch.HandleRules
import Itch.Handles
import Itch.Histogram
import Itch.HistogramBuckets
import Itch.HistogramPercentiles
import Itch.LevelKeys
import Itch.LevelMap
import Itch.LevelMapRuns
import Itch.LevelSearch
import Itch.LevelSearchChunks
import Itch.LevelSearchReads
import Itch.LevelSearchVector
import Itch.LevelSide
import Itch.LevelSideLevels
import Itch.LevelSideSpec
import Itch.LevelSideTouch
import Itch.LevelSummary
import Itch.Lib.Arrays
import Itch.Lib.BigEndian
import Itch.Lib.BitScan
import Itch.Lib.Borrow
import Itch.Lib.ByteOrder
import Itch.Lib.Fallible
import Itch.Lib.Greedy
import Itch.Lib.KeyedList
import Itch.Lib.KeyedSplit
import Itch.Lib.Moves
import Itch.Lib.Ranks
import Itch.Lib.Reachable
import Itch.Lib.Reorder
import Itch.Lib.Resources
import Itch.Lib.Runs
import Itch.Lib.Shuffle
import Itch.Lib.SlotTable
import Itch.Lib.Tiling
import Itch.Lib.Traced
import Itch.Lib.TriangularProbe
import Itch.Lib.Wrap
import Itch.LiveLoop
import Itch.LiveReplay
import Itch.LiveSession
import Itch.LocateFilter
import Itch.LocateFilterCalls
import Itch.LocateFilterRuns
import Itch.LostLevels
import Itch.Market
import Itch.MessageStructs
import Itch.MessageTypes
import Itch.Messages
import Itch.MoldBatches
import Itch.MoldBlocks
import Itch.MoldGreedy
import Itch.MoldLoss
import Itch.MoldPackets
import Itch.MoldPartition
import Itch.MoldReplay
import Itch.MoldSend
import Itch.MoldSession
import Itch.MoldSessions
import Itch.MoldUdp64
import Itch.OrderBook
import Itch.OrderMap
import Itch.OrderMapBudget
import Itch.OrderMapChurn
import Itch.OrderMapInsert
import Itch.OrderMapInvariant
import Itch.OrderMapLoops
import Itch.OrderMapPointers
import Itch.OrderMapProbe
import Itch.OrderMapRefines
import Itch.OrderMapRuns
import Itch.OrderMapSteps
import Itch.OrderMapUpdate
import Itch.OrderMapWords
import Itch.OrderRefRuns
import Itch.OrderRefs
import Itch.Parser
import Itch.PrefetchPipeline
import Itch.PrefetchTrace
import Itch.Process
import Itch.Publisher
import Itch.PublisherFullSide
import Itch.PublisherRuns
import Itch.PublisherTop
import Itch.QuadraticRefTable
import Itch.Reads
import Itch.ReadsInside
import Itch.ReadsStream
import Itch.ReadsValue
import Itch.Records
import Itch.Replay
import Itch.SessionReplay
import Itch.SessionReport
import Itch.Shutdown
import Itch.SpscRing
import Itch.SpscRingFifo
import Itch.SpscRingInvariant
import Itch.SpscRingSteps
import Itch.Store
import Itch.StraySessions
import Itch.Stream
import Itch.SymbolDirectory
import Itch.SyntheticFeed
import Itch.SyntheticFeedCrowd
import Itch.SyntheticFeedInvariant
import Itch.SyntheticFeedMessages
import Itch.SyntheticFeedOrders
import Itch.SyntheticFeedReplay
import Itch.SyntheticFeedRuns
import Itch.SyntheticFeedSize
import Itch.TopOfBook
import Itch.UdpFrame
import Itch.UdpFrameAccepted
import Itch.UdpFrameGrammar
import Itch.UdpFrameReads
import Itch.XdpFilter
import Itch.XdpReceiver
import Itch.XdpReceiverInvariant
import Itch.XdpSession
