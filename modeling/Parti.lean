import Parti.Assignment.PublishFailure
import Parti.Assignment.CommitVersion
import Parti.Assignment.PayloadRetention
import Parti.Assignment.AliasVersion
import Parti.Handoff.Ownership
import Parti.Handoff.Removal
import Parti.Handoff.ClaimShape
import Parti.Calculator.PendingUpdate
import Parti.Source.Modify
import Parti.Source.UpdateAlone
import Parti.Manager.RetryLoops
import Parti.Manager.Monotone
import Parti.Manager.Hooks
import Parti.Manager.CommitDebounce
import Parti.Manager.LeaderFence
import Parti.Manager.Custody
import Parti.Manager.StartupAck
import Parti.Strategy.RoundRobin
import Parti.Heartbeat.Acknowledged
import Parti.Heartbeat.Stopped
import Parti.Election.Release
import Parti.Election.Term
import Parti.StableId.Loss
import Parti.Handoff.OrphanReap
import Parti.Durable.PullGating
import Parti.Calculator.LabelRecheck
import Parti.Calculator.PartitionShrink
import Parti.Calculator.Replay
import Parti.Assignment.SweepReads
import Parti.Durable.Tombstones
import Parti.Durable.GateIdentity
import Parti.Recovery.LastProcessed
import Parti.Recovery.StreamRecreated
import Parti.Durable.Filters
import Parti.Static.Publisher
import Parti.Static.KeyOrder
import Parti.Manager.CalculatorSync
import Parti.Manager.DegradeRequests
import Parti.Manager.ErrorCircuit
import Parti.Manager.RecoveryGrace
import Parti.Manager.PayloadRead
