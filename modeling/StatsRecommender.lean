import StatsRecommender.Storage.ZonemapOrder
import StatsRecommender.Storage.ColumnSegments
import StatsRecommender.Library.Transition
import StatsRecommender.Storage.ColumnData
import StatsRecommender.Storage.RowGroup
import StatsRecommender.Storage.RowGroupCollection
import StatsRecommender.Storage.AppendRun
import StatsRecommender.Storage.ColumnChanges
import StatsRecommender.Storage.ColumnOwnership
import StatsRecommender.Storage.System
import StatsRecommender.Storage.SystemInvariant
import StatsRecommender.Storage.PointerRun
import StatsRecommender.Storage.ColumnCoverage
import StatsRecommender.Storage.CoverageRun
import StatsRecommender.Storage.RowVersionManager
import StatsRecommender.Storage.RowVersionRun
import StatsRecommender.Storage.RowVersionInvariant
import StatsRecommender.Storage.RowVersionSnapshot
import StatsRecommender.Library.RunLength
import StatsRecommender.Compression.RLE
import StatsRecommender.Compression.RLEScan
import StatsRecommender.Compression.RLEFilter
import StatsRecommender.Storage.FilterRun
import StatsRecommender.Storage.SegmentScan
import StatsRecommender.Transaction.ManagerInvariant
import StatsRecommender.Transaction.ManagerSafety
import StatsRecommender.Execution.BatchInsert
import StatsRecommender.Execution.BatchSchedule
import StatsRecommender.Execution.BatchMerge
import StatsRecommender.Execution.BatchInsertRun
import StatsRecommender.Execution.BatchInsertInvariant
import StatsRecommender.Execution.BatchInsertSteps
import StatsRecommender.Execution.BatchInsertSafety
import StatsRecommender.Library.OrderedSet
import StatsRecommender.Statistics.ClusterSearch
import StatsRecommender.Library.MultipleChoice
import StatsRecommender.Assigners.DpOptimal
import StatsRecommender.Statistics.ClusterWidth
import StatsRecommender.Storage.CheckpointWriters
import StatsRecommender.SortKey.SortKeyComparison
import StatsRecommender.Transaction.CommitRollback
import StatsRecommender.Storage.BlockRun
import StatsRecommender.Assigners.GreedyRun
import StatsRecommender.Assigners.Output
import StatsRecommender.Statistics.StatisticsMerge
import StatsRecommender.Planner.TableFilterEquals
import StatsRecommender.Statistics.StatisticsSerialization
import StatsRecommender.Statistics.StatisticsRoundTrip
import StatsRecommender.Compression.ValidityUncompressed
import StatsRecommender.Compression.ValidityRun
import StatsRecommender.Storage.SelectionBuffers
import StatsRecommender.Types.Utf8Proc
import StatsRecommender.Optimizer.PrefixPushdown
import StatsRecommender.Storage.FilledColumn
import StatsRecommender.Storage.ColumnRevert
import StatsRecommender.Storage.RowGroupScan
import StatsRecommender.Storage.RowDeletion
import StatsRecommender.Storage.LazySegmentTree
import StatsRecommender.Types.HugeintQuotients
import StatsRecommender.Storage.RowGroupScanRun
import StatsRecommender.Execution.ConflictFiltering
import StatsRecommender.Function.FindStrInStr
import StatsRecommender.Function.LikeMatching
import StatsRecommender.Function.LikeSegments
import StatsRecommender.Function.ILike
import StatsRecommender.SortKey.DecodeSortKey
import StatsRecommender.SortKey.DecodedValues
import StatsRecommender.SortKey.DecodedRows
import StatsRecommender.SortKey.DecodeSortKeyInverse
import StatsRecommender.SortKey.SortKeyRoundTrip
import StatsRecommender.Library.GregorianCalendar
import StatsRecommender.Types.Date
import StatsRecommender.Types.DateConversion
import StatsRecommender.Types.DateText
import StatsRecommender.Library.ByteOrder
import StatsRecommender.Types.StringType
import StatsRecommender.Types.StringComparison
import StatsRecommender.Types.Uhugeint
import StatsRecommender.Compression.HugeIntPacker
import StatsRecommender.Compression.HugeIntPacking
import StatsRecommender.Compression.HugeIntUnpacking
import StatsRecommender.Compression.HugeIntGroups
import StatsRecommender.Storage.RowGroupScanResult
import StatsRecommender.Storage.DurabilityRun
import StatsRecommender.Storage.StaleLog
import StatsRecommender.Storage.UpdateSnapshots
