import Orlando.Durability
import Orlando.FailedLoad
import Orlando.EntryPoints
import Orlando.PanicIsolation
import Orlando.JournalFaults
import Orlando.AcceptedMessages
import Orlando.CallerOrder
import Orlando.GossipConvergence
import Orlando.SwimRecords
import Orlando.MembershipFencing
import Orlando.Residency
import Orlando.Authentication
import Orlando.Gateway
import Orlando.RingTransitions
import Orlando.MovedActivation
import Orlando.Rebalancer
import Orlando.Senders
import Orlando.RedisStore
import Orlando.FileStore
import Orlando.Streams
import Orlando.TcpClient
import Orlando.Encodings
import Orlando.Serializability
import Orlando.Rollback
import Orlando.WriteBack
import Orlando.Cleanup
import Orlando.Upgrade
import Orlando.CompositeKeys
import Orlando.FilePaths
import Orlando.FilterHooks
import Orlando.ContextChain
import Orlando.ActivationLimit
import Orlando.WorkerPool
import Orlando.VersionChecks
import Orlando.Refutation
import Orlando.PollTiming
import Orlando.LogAgreement
import Orlando.ReplicationPump
import Orlando.PostgresAppends
import Orlando.PoolTeardown
import Orlando.MembershipRefinement
import Orlando.GossipQueue
import Orlando.JoinLimiter
import Orlando.ActivationGauge
import Orlando.ReminderStores
