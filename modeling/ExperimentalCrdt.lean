import ExperimentalCrdt.Gc.SkippedEpochs
import ExperimentalCrdt.Gc.Departed
import ExperimentalCrdt.Cluster.System
import ExperimentalCrdt.Cluster.Steps
import ExperimentalCrdt.Cluster.Epochs
import ExperimentalCrdt.Cluster.Bootstrap
import ExperimentalCrdt.Cluster.Knowledge
import ExperimentalCrdt.Cluster.Convergence
import ExperimentalCrdt.Cluster.FullState
import ExperimentalCrdt.Cluster.Reclamation
import ExperimentalCrdt.Cluster.Frontier
import ExperimentalCrdt.Cluster.Dots
import ExperimentalCrdt.Cluster.Data
import ExperimentalCrdt.Cluster.Leftovers
import ExperimentalCrdt.Cluster.FastPath
import ExperimentalCrdt.Cluster.Servers
import ExperimentalCrdt.Cluster.FinalDot
import ExperimentalCrdt.Cluster.Quiescence
import ExperimentalCrdt.Cluster.Exchange
import ExperimentalCrdt.Cluster.Progress
import ExperimentalCrdt.Cluster.Obsolete
import ExperimentalCrdt.Cluster.Seen
import ExperimentalCrdt.Cluster.Forgotten
import ExperimentalCrdt.Crdt.Representation
import ExperimentalCrdt.Gc.ExactFrontier
import ExperimentalCrdt.LogicalClocks.Deltas
import ExperimentalCrdt.Engine.Replication
import ExperimentalCrdt.Gc.StoredKeys
import ExperimentalCrdt.Peers.Heartbeat
import ExperimentalCrdt.Peers.Reconciliation
import ExperimentalCrdt.Network.Protocol
import ExperimentalCrdt.Experiment.Topology
import ExperimentalCrdt.Proto.Messages
import ExperimentalCrdt.Crdt.Codec
import ExperimentalCrdt.Server.ClientRequests
import ExperimentalCrdt.Engine.ClockArithmetic
import ExperimentalCrdt.Network.Delivery
import ExperimentalCrdt.Cluster.OverConnections
import ExperimentalCrdt.Experiment.Agreement
import ExperimentalCrdt.Client.Users
import ExperimentalCrdt.Cluster.Completeness
import ExperimentalCrdt.Experiment.Setup
