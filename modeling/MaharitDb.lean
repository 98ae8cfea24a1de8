import MaharitDb.Lib.AssocMap
import MaharitDb.Lib.MapEntries
import MaharitDb.Lib.NumberText
import MaharitDb.Lib.SetMap
import MaharitDb.Lib.PropertyGraph
import MaharitDb.Lib.GraphRenaming
import MaharitDb.Lib.GraphReplay
import MaharitDb.Lib.GuardedRun
import MaharitDb.Lib.UndoLog
import MaharitDb.Lib.ByteCodec
import MaharitDb.Lib.ByteDecoder
import MaharitDb.Lib.Slots
import MaharitDb.Lib.ExceptList
import MaharitDb.Lib.Pruned
import MaharitDb.Lib.Stateful
import MaharitDb.Lib.LayeredSearch
import MaharitDb.Lib.DepthFirst
import MaharitDb.Lib.Framing
import MaharitDb.Lib.Comparator
import MaharitDb.Lib.ExactRun
import MaharitDb.Lib.GregorianCalendar
import MaharitDb.Lib.DecimalText
import MaharitDb.Lib.FirstOccurrences
import MaharitDb.Lib.DoubleRounding
import MaharitDb.Lib.EditDistance
import MaharitDb.Lib.EditScript
import MaharitDb.Lib.EnoughFuel
import MaharitDb.Lib.Walks
import MaharitDb.Lib.WalkDistance
import MaharitDb.Lib.StackLoop
import MaharitDb.Lib.Loop
import MaharitDb.Lib.BreadthFirst
import MaharitDb.Lib.ShortestWalks
import MaharitDb.Lib.WalkCount
import MaharitDb.Lib.Dependency
import MaharitDb.Lib.Partition
import MaharitDb.Lib.Tally
import MaharitDb.Lib.Division
import MaharitDb.Lib.RecursiveSearch
import MaharitDb.Lib.FinishOrder
import MaharitDb.Lib.StrongParts
import MaharitDb.Lib.CycleSearch
import MaharitDb.Lib.BestFirst
import MaharitDb.Core.PropertyValue
import MaharitDb.Core.CalendarText
import MaharitDb.Core.GraphBackend
import MaharitDb.Core.ConcurrentGraph
import MaharitDb.Core.ConcurrentGraphContent
import MaharitDb.Core.ConcurrentGraphRuns
import MaharitDb.Core.BackendLaws
import MaharitDb.Core.Graph
import MaharitDb.Core.GraphSlots
import MaharitDb.Core.GraphRuns
import MaharitDb.Core.GraphContent
import MaharitDb.Core.BackendSame
import MaharitDb.Core.BackendEquivalence
import MaharitDb.Core.Constraint
import MaharitDb.Core.FloatOrder
import MaharitDb.Core.FloatRounding
import MaharitDb.Core.CalendarSteps
import MaharitDb.Core.CalendarRoundTrip
import MaharitDb.Core.DurationParsing
import MaharitDb.Core.TemporalParsing
import MaharitDb.Core.Fulltext
import MaharitDb.Core.PropertyIndex
import MaharitDb.Core.PropertyIndexEntries
import MaharitDb.Core.PropertyIndexRanges
import MaharitDb.Core.LabelIndex
import MaharitDb.Core.FulltextDocuments
import MaharitDb.Core.FulltextSearch
import MaharitDb.Core.FulltextRuns
import MaharitDb.Core.Traversal
import MaharitDb.Core.Adjacency
import MaharitDb.Core.PageRank
import MaharitDb.Core.Components
import MaharitDb.Core.ShortestPath
import MaharitDb.Core.AllPaths
import MaharitDb.Core.TraversalIterators
import MaharitDb.Core.StrongComponents
import MaharitDb.Core.Cycles
import MaharitDb.Core.WeightedPath
import MaharitDb.Core.Dijkstra
import MaharitDb.Core.AStar
import MaharitDb.Core.Betweenness
import MaharitDb.Storage.Transaction
import MaharitDb.Storage.LockTable
import MaharitDb.Storage.LockSteps
import MaharitDb.Storage.LockExclusive
import MaharitDb.Storage.LockCleanup
import MaharitDb.Storage.DeadlockDetection
import MaharitDb.Storage.WalRecord
import MaharitDb.Storage.Wal
import MaharitDb.Storage.WalDurability
import MaharitDb.Storage.WalTruncation
import MaharitDb.Storage.WalCleanup
import MaharitDb.Storage.GroupCommit
import MaharitDb.Storage.TransactionOperations
import MaharitDb.Server.ReplicationStream
import MaharitDb.Storage.WalRecovery
import MaharitDb.Storage.Backup
import MaharitDb.Storage.BackupCopy
import MaharitDb.Storage.PointInTime
import MaharitDb.Storage.Incremental
import MaharitDb.Storage.IncrementalTracks
import MaharitDb.Storage.IncrementalRestore
import MaharitDb.Storage.Mvcc
import MaharitDb.Storage.MvccSnapshots
import MaharitDb.Storage.MvccHistory
import MaharitDb.Storage.MvccGc
import MaharitDb.Storage.SnapshotCodec
import MaharitDb.Storage.SnapshotExact
import MaharitDb.Storage.Persistence
import MaharitDb.Storage.PersistenceCopy
import MaharitDb.Server.WalEntry
import MaharitDb.Server.MutationLog
import MaharitDb.Server.Rollback
import MaharitDb.Server.Replication
import MaharitDb.Server.SnapshotReplay
import MaharitDb.Server.SnapshotConverges
import MaharitDb.Server.FollowerLsn
import MaharitDb.Server.Auth
import MaharitDb.Query.Ast
import MaharitDb.Query.AstCache
import MaharitDb.Query.Value
import MaharitDb.Query.Evaluate
import MaharitDb.Query.Matching
import MaharitDb.Query.PathSearch
import MaharitDb.Query.PathMeaning
import MaharitDb.Query.PathHops
import MaharitDb.Query.PathCorrect
import MaharitDb.Query.Segment
import MaharitDb.Query.MatchStatement
import MaharitDb.Query.Update
import MaharitDb.Query.ValueText
import MaharitDb.Query.ReadableText
import MaharitDb.Query.Aggregate
import MaharitDb.Query.Statement
import MaharitDb.Query.LimitPrefix
import MaharitDb.Query.FastCount
import MaharitDb.Query.RowIdentity
import MaharitDb.Query.SortOrder
import MaharitDb.Query.SortPages
import MaharitDb.Query.Pushdown
import MaharitDb.Query.ValueEquality
import MaharitDb.Query.WhereConnectives
import MaharitDb.Query.PropertyAccess
import MaharitDb.Query.Arithmetic
import MaharitDb.Query.ArithmeticExact
import MaharitDb.Query.RangeFunction
import MaharitDb.Query.StringContains
import MaharitDb.Query.SimplePaths
import MaharitDb.Query.ShortestPaths
import MaharitDb.Query.AllShortestPaths
import MaharitDb.Query.Lexer
import MaharitDb.Query.TokenText
import MaharitDb.Query.ExpressionParser
import MaharitDb.Query.ExpressionRules
import MaharitDb.Query.NameSpelling
import MaharitDb.Io.Records
import MaharitDb.Io.Json
import MaharitDb.Io.JsonRoundTrip
import MaharitDb.Io.CellValue
import MaharitDb.Io.Csv
import MaharitDb.Io.LoadersAgree
import MaharitDb.Io.GraphMl
import MaharitDb.Io.GraphMlColumns
import MaharitDb.Io.GraphMlReading
import MaharitDb.Io.GraphMlRoundTrip
import MaharitDb.Server.TcpServer
import MaharitDb.Server.ReadOnly
import MaharitDb.Server.UserStatements
import MaharitDb.Server.MessageFraming
import MaharitDb.Cluster.Strategy
import MaharitDb.Cluster.Router
import MaharitDb.Cluster.RowMerge
import MaharitDb.Cluster.Rebalance
import MaharitDb.Lib.Recency
import MaharitDb.Lib.GraphValues
import MaharitDb.Query.QueryCache
import MaharitDb.Query.StatementSteps
import MaharitDb.Server.StatementWrites
import MaharitDb.Server.GraphIntegrity
import MaharitDb.Server.ServerIntegrity
import MaharitDb.Server.ServerRollback
import MaharitDb.Server.NodeChanges
import MaharitDb.Server.ConstraintRuns
import MaharitDb.Server.FollowerContent
import MaharitDb.Server.ServerReplication
import MaharitDb.Server.IndexRuns
import MaharitDb.Server.ServerIndexes
import MaharitDb.Client.Connection
import MaharitDb.Client.Sessions
