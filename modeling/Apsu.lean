import Apsu.Lib.Blocks
import Apsu.Lib.Digits
import Apsu.Lib.RowMajor
import Apsu.Lib.Scatter
import Apsu.Machine
import Apsu.Params
import Apsu.Packing
import Apsu.Query
import Apsu.QueryMasks
import Apsu.Shuffle
import Apsu.Powers
import Apsu.PowersDag
import Apsu.Evaluation
import Apsu.Lib.BitString
import Apsu.Item
import Apsu.DbEncoding
import Apsu.CuckooFilterTable
import Apsu.CuckooFilter
import Apsu.Interpolate
import Apsu.BinBundle
import Apsu.Lib.RemoveIf
import Apsu.Lib.Consecutive
import Apsu.Lib.Columns
import Apsu.Lib.ExceptionGuarantee
import Apsu.ReceiverDB
import Apsu.BundleContents
import Apsu.BundleFormat
import Apsu.BundleIntact
import Apsu.BundleSound
import Apsu.BundleTotal
import Apsu.AtomicUpdates
import Apsu.Workers
import Apsu.Rounds
import Apsu.MatchingPolynomial
import Apsu.DatabaseRun
import Apsu.DatabaseSound
import Apsu.SetSemantics
import Apsu.MatchCompleteness
import Apsu.LabelPolynomial
import Apsu.BundleMethods
import Apsu.BundleRun
import Apsu.CacheCoherence
import Apsu.FilterAgreement
import Apsu.RemovalSafety
import Apsu.Conservation
import Apsu.RemovalPlaces
import Apsu.BatchRemoval
import Apsu.Lib.Interleaving
import Apsu.Lib.TwoMatchings
import Apsu.Lib.SwitchNetwork
import Apsu.Lib.MaskedNetwork
import Apsu.Benes
import Apsu.BenesColouring
import Apsu.BenesNetwork
import Apsu.BenesRouting
import Apsu.MaskedEvaluation
import Apsu.SwitchCorrections
import Apsu.ObliviousSwitching
import Apsu.ParallelApply
import Apsu.ParallelProgress
import Apsu.ComputePowers
import Apsu.ResultCollection
import Apsu.BinSizes
import Apsu.EvaluationForms
import Apsu.PreparedPowers
import Apsu.ProcessCache
import Apsu.SuccessiveQueries
import Apsu.CardinalitySum
import Apsu.MatchAggregation
import Apsu.PowersConfigure
import Apsu.PlaintextPowers
import Apsu.PowersObservers
import Apsu.ResultSafety
import Apsu.ResultCollectors
import Apsu.ArbitaryItems
import Apsu.Lib.LucasTest
import Apsu.Lib.Montgomery
import Apsu.Lib.SlidingWindow
import Apsu.OPRFAgreement
import Apsu.NetworkFrames
import Apsu.StreamSync
import Apsu.FilterHistory
import Apsu.Interpolation
import Apsu.BitOffsets
import Apsu.BitRoundTrip
import Apsu.LabelLayout
import Apsu.DatabaseFormat
import Apsu.LoadedDatabase
import Apsu.LoadRejection
import Apsu.SavedBundles
import Apsu.SavedDatabase
import Apsu.Lib.ByteCodec
import Apsu.TableCodecs
import Apsu.SaveLoad
import Apsu.SlotValues
import Apsu.PrivateMembership
import Apsu.UnionRun
import Apsu.SetUnion
import Apsu.Lib.FairRuns
import Apsu.ThreadPool
import Apsu.ThreadPoolSound
import Apsu.ThreadPoolProgress
import Apsu.ThreadPoolLiveness
import Apsu.Lib.CommutingSteps
import Apsu.Lib.StreamParties
import Apsu.NetIo
import Apsu.ResultFormat
import Apsu.ZmqChannel
import Apsu.Lib.RequestServer
import Apsu.Dispatcher
import Apsu.DispatcherRuns
import Apsu.QueryRuns
import Apsu.NetworkUnion
import Apsu.EqualityTest
import Apsu.ObliviousTransfer
