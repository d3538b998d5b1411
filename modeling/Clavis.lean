import Clavis.Domain
import Clavis.RaftLog
import Clavis.Lib.RangeDelete
import Clavis.Lib.Json
import Clavis.Lib.Trace
import Clavis.Lib.Queue
import Clavis.Lib.Unwinding
import Clavis.State.FSM
import Clavis.State.Machine
import Clavis.State.Invariants
import Clavis.State.Fencing
import Clavis.State.Snapshot
import Clavis.State.LeaseLife
import Clavis.State.LeaseDeath
import Clavis.State.Restore
import Clavis.State.Isolation
import Clavis.Cluster.LeaseTracker
import Clavis.Cluster.Deadline
import Clavis.Cluster.Storage
import Clavis.Cluster.Failover
import Clavis.Cluster.Raft
import Clavis.Cluster.Node
import Clavis.Cluster.Expiry
import Clavis.Cluster.Renewal
import Clavis.Cluster.LockQueue
import Clavis.Service.Acquire
import Clavis.Service.Calls
import Clavis.Service.WakeUp
import Clavis.Service.Fifo
import Clavis.Service.Reacquire
import Clavis.Service.Lag
import Clavis.Client.Session
import Clavis.Client.Heartbeat
import Clavis.Client.Start
import Clavis.Client.Retry
import Clavis.State.Frame
import Clavis.Service.Linearizability
import Clavis.Service.CreateLease
import Clavis.Cluster.Member
import Clavis.Cluster.Takeover
import Clavis.Lib.Text
import Clavis.Lib.Uuid
import Clavis.App.Identity
import Clavis.Client.Resolver
import Clavis.Client.Release
import Clavis.Client.Exchange
import Clavis.Lib.Sequence
import Clavis.Lib.Interval
import Clavis.Jepsen.Checker
import Clavis.Lib.InTime
import Clavis.Client.Attempt
import Clavis.Guarantee.Lifetime
import Clavis.Guarantee.Fleet
import Clavis.Guarantee.Exclusion
import Clavis.Guarantee.Downstream
import Clavis.Cluster.Replica
import Clavis.Lib.Returns
import Clavis.Client.Failover
import Clavis.Client.WaitAcquire
import Clavis.Jepsen.Verdict
import Clavis.Jepsen.Harness
import Clavis.Jepsen.Soundness
import Clavis.Cluster.ExpiryLoop
import Clavis.Guarantee.Sweeper
import Clavis.Guarantee.Reclaim
import Clavis.Client.Outage
import Clavis.Service.Handover
import Clavis.App.Address
