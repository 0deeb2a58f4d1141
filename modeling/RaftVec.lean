import RaftVec.Library.FiniteMap
import RaftVec.Library.Greatest
import RaftVec.Library.Grouping
import RaftVec.Library.Linearizability
import RaftVec.Library.Locality
import RaftVec.Library.Run
import RaftVec.Library.Transducer
import RaftVec.Library.WatchChannel
import RaftVec.Library.WriteHistory
import RaftVec.Core.Record
import RaftVec.Core.TopK
import RaftVec.Core.Search
import RaftVec.Core.ZeroVectors
import RaftVec.Core.Direction
import RaftVec.Core.Float32
import RaftVec.Core.Sharding
import RaftVec.Node.Store
import RaftVec.Node.AtomicInsert
import RaftVec.Node.StateMachine
import RaftVec.Node.Snapshot
import RaftVec.Node.CatchUp
import RaftVec.Node.Commuting
import RaftVec.Node.Service
import RaftVec.Node.ClusterStatus
import RaftVec.Node.HitVersions
import RaftVec.Node.ShardGroup
import RaftVec.Node.LeaderHint
import RaftVec.Node.ConcurrentRequests
import RaftVec.Node.RequestInvariant
import RaftVec.Node.ConcurrentInvariant
import RaftVec.Node.LinearizableShard
import RaftVec.Node.ConcurrentCluster
import RaftVec.Node.ConnectionCache
import RaftVec.Node.ConnectionQueue
import RaftVec.Node.IncrementalSearch
import RaftVec.Node.LogStore
import RaftVec.Node.ListLog
import RaftVec.Node.Metrics
import RaftVec.Node.Representation
import RaftVec.Node.OwnedStore
import RaftVec.Node.RaftNetwork
import RaftVec.Node.RaftDelivery
import RaftVec.Node.Recovery
import RaftVec.Node.ReplicaAgreement
import RaftVec.Node.RetriedWrite
import RaftVec.Node.SelfMatch
import RaftVec.Node.SnapshotRace
import RaftVec.Aggregator.Retry
import RaftVec.Aggregator.Router
import RaftVec.Aggregator.Acknowledged
import RaftVec.Aggregator.FanOut
import RaftVec.Aggregator.AllOrNothing
import RaftVec.Aggregator.Slices
import RaftVec.Aggregator.SlicedSearch
import RaftVec.Aggregator.Merge
import RaftVec.Aggregator.Cluster
import RaftVec.Aggregator.Refinement
import RaftVec.Aggregator.ClusterStatus
import RaftVec.Aggregator.LeaderSearch
import RaftVec.Aggregator.RetrySteps
import RaftVec.Aggregator.JoinAll
import RaftVec.Aggregator.Service
import RaftVec.Aggregator.CreateRetry
import RaftVec.Aggregator.Ownership
import RaftVec.Aggregator.DeleteCount
import RaftVec.Aggregator.HangingReplica
import RaftVec.Aggregator.KeptCollections
import RaftVec.Aggregator.RejectedBatch
import RaftVec.Aggregator.SharedRetry
import RaftVec.Aggregator.SharedShapes
import RaftVec.Aggregator.Startup
import RaftVec.Aggregator.Stateless
import RaftVec.Client.Vecctl
