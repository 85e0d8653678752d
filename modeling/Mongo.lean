import Mongo.LexOrder
import Mongo.Binary64
import Mongo.BSONTypes
import Mongo.CompareNumbers
import Mongo.CBytes
import Mongo.BSONCompare
import Mongo.BSONOrder
import Mongo.Biggie.Node
import Mongo.Biggie.Modify
import Mongo.Biggie.Merge
import Mongo.Biggie.WellFormed
import Mongo.Biggie.Bound
import Mongo.BSONValidate
import Mongo.NumberEdges
import Mongo.Query.Match
import Mongo.Query.Path
import Mongo.Query.Expression
import Mongo.Query.Interval
import Mongo.Query.IntervalList
import Mongo.Query.IntervalSetOps
import Mongo.SkipScan
import Mongo.Query.IndexBoundsChecker
import Mongo.Query.IndexScan
import Mongo.Query.ScanDirection
import Mongo.Query.CheckKey
import Mongo.Query.IndexScanExact
import Mongo.StableSort
import Mongo.Sorter.Iterator
import Mongo.Sorter.Sorter
import Mongo.Sorter.Correct
import Mongo.Sorter.TopK
import Mongo.Sorter.Done
import Mongo.KeyString.RecordId
import Mongo.KeyString.Skip
import Mongo.KeyString.Discriminator
import Mongo.KeyString.TypeBits
import Mongo.Sharding.RangeMap
import Mongo.Sharding.CollectionMetadata
import Mongo.SortedSearch
import Mongo.Sharding.ChunkManager
import Mongo.Sharding.Routing
import Mongo.Sharding.ShardVersionMap
import Mongo.OrderStatistic
import Mongo.Repl.TopologyCoordinator
import Mongo.Repl.ReplicationCoordinator
import Mongo.Repl.VoteSafety
import Mongo.Repl.CommitPoint
import Mongo.Tally
import Mongo.Concurrency.LockModes
import Mongo.Concurrency.LockManager
import Mongo.Concurrency.LockInvariant
import Mongo.Concurrency.LockSteps
import Mongo.Concurrency.LockExclusion
import Mongo.Concurrency.LockCalls
import Mongo.Concurrency.LockSafety
import Mongo.Concurrency.LockQueues
import Mongo.Decimal
import Mongo.Util.DecimalCounter
import Mongo.Util.Base64
import Mongo.Balancer.DistributionStatus
import Mongo.Balancer.BalancerPolicy
import Mongo.Balancer.BalanceRound
import Mongo.Civil
import Mongo.Base.ParseNumber
import Mongo.Util.TimeSupport
import Mongo.Util.DateParse
import Mongo.Util.DateRoundTrip
