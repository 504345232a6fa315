import ExperimentalCrdt.Cluster.System
import ExperimentalCrdt.Network.InOrder
import ExperimentalCrdt.Server.PeerMessages

/-!
# The cluster over its connections

The servers with what lies between them: an envelope is encoded and handed to the connection behind
the registry's entry, goes over it in frames cut into pieces, and is put into the channel of the
application, from which the main loop of `server/mod.rs` takes it. The servers and the bucket are
those of `Cluster`, whose network is only used to collect what a server sends; duplicates and losses
are no steps of their own any more, but what connections do.

Any server may open a connection to any other; when that happens is for the discovery to say. A
server that has stopped leaves nothing behind but the bytes it has written. A step in which a
counter leaves `u64`, or a message the four bytes of its length, is not enabled.
-/

namespace ExperimentalCrdt

open TcpConnection (Connection Side Identity Event)

/-- An envelope in the channel of an application. -/
structure Mail where
  src : NodeId
  dst : NodeId
  envelope : Proto.ValidEnvelope

structure Deployment where
  cluster : Cluster String
  connections : List Connection
  /-- the connection, and the side of it, behind a server's entry for a peer -/
  handles : HashMap (NodeId × NodeId) (Nat × Side)
  /-- the channels of all applications -/
  inbox : List Mail

/-- A step of one server. -/
def Label.isLocal : Label String → Bool
  | .request _ _ | .handle _ _ | .resume _ _ | .start _ _ | .heartbeat _ |
    .beginShutdown _ | .continueShutdown _ _ => true
  | .receive _ | .duplicate _ | .drop _ | .connect _ _ _ | .disconnect _ _ => false

def Envelope.toValid (envelope : Envelope String) (h : envelope.Sendable) : Proto.ValidEnvelope :=
  ⟨envelope.toProto, h.1, Nat.lt_trans h.2.1 (by decide)⟩

namespace Deployment

inductive Label where
  | server (l : ExperimentalCrdt.Label String)
  | dial (src dst : NodeId)
  | transport (k : Nat) (l : TcpConnection.Label)
  | process (id : NodeId)
  | remove (id peer : NodeId)

/-- Servers that serve from the start, over a bucket that knows no epoch, and nothing between
them. -/
def fixed (members : HashMap NodeId Bool) : Deployment :=
  { cluster := .fixed members, connections := [], handles := ∅, inbox := [] }

/-- Hand an envelope to the connection behind the entry for its destination; it may be full, or
closed. -/
def sendPacket (d : Deployment) (p : Packet String) : Deployment :=
  match d.handles.lookup (p.src, p.dst) with
  | none => d
  | some (k, s) =>
    match d.connections[k]? with
    | none => d
    | some c =>
      if h : p.envelope.Sendable then
        match (c.ends s).trySend (p.envelope.toValid h) with
        | none => d
        | some e => { d with connections := d.connections.set k (c.setEnd s e) }
      else d

/-- Hand over what a server has sent. -/
def sendAll (d : Deployment) (packets : List (Packet String)) : Deployment :=
  packets.foldl sendPacket d

/-- What is left of a connection when only the servers of `alive` are. -/
def reapConnection (alive : NodeId → Bool) (c : Connection) : Connection :=
  { c with
    ends := fun s => if alive (c.ends s).identity.nodeId then c.ends s else (c.ends s).close }

/-- A server that has stopped has no connections, no registry and no channel. -/
def reap (d : Deployment) : Deployment :=
  let alive : NodeId → Bool := fun id => decide (id ∈ d.cluster.nodes)
  { d with
    connections := d.connections.map (reapConnection alive)
    handles := d.handles.retain fun key _ => alive key.1
    inbox := d.inbox.filter fun m => alive m.dst }

/-- The handle behind the entry is dropped. -/
def dropHandle (d : Deployment) (id peer : NodeId) : Deployment :=
  match d.handles.lookup (id, peer) with
  | none => d
  | some (k, s) =>
    let d := { d with handles := d.handles.erase (id, peer) }
    match d.connections[k]? with
    | none => d
    | some c => { d with connections := d.connections.set k ((c.step (.dropHandle s)).getD c) }

/-- What a connection does to its servers. -/
def occur (k : Nat) (d : Deployment) : Event → Deployment
  | .registered s remoteNodeId remoteGcReplica =>
    match d.connections[k]? with
    | none => d
    | some c =>
      let id := (c.ends s).identity.nodeId
      match d.cluster.step (.connect id remoteNodeId remoteGcReplica) with
      | none => d
      | some cluster =>
        let d := d.dropHandle id remoteNodeId
        { d with cluster, handles := d.handles.insert (id, remoteNodeId) (k, s) }
  | .forwarded s envelope =>
    match d.connections[k]? with
    | none => d
    | some c =>
      { d with
        inbox := d.inbox ++
          [⟨(c.ends s.other).identity.nodeId, (c.ends s).identity.nodeId, envelope⟩] }

/-- The task of a server that opens a connection: the node id is also the node's name. -/
def identity (id : NodeId) (gcReplica : Bool) : Option Identity :=
  if h : (TcpConnection.handshakeEnvelope id id gcReplica).encodeToVec.length ≤
    Protocol.MAX_FRAME_LEN.toNat then
    some ⟨id, id, gcReplica, h⟩
  else none

/-- Only the tasks of a connection, and the network, take steps of it. -/
def ofTasks : TcpConnection.Label → Bool
  | .offer _ _ | .dropHandle _ => false
  | _ => true

def step (d : Deployment) : Label → Option Deployment
  | .server l =>
    if l.isLocal then do
      let cluster ← d.cluster.step l
      if ∀ p ∈ cluster.network, p.envelope.Sendable then
        some (sendAll { d with cluster := { cluster with network := [] } } cluster.network).reap
      else none
    else none
  | .dial src dst => do
    let s ← d.cluster.nodes.lookup src
    let t ← d.cluster.nodes.lookup dst
    let a ← identity src s.engine.replica.gc.gcReplica
    let b ← identity dst t.engine.replica.gc.gcReplica
    let peer : Side → Identity := fun side =>
      match side with
      | .initiator => a
      | .acceptor => b
    some { d with connections := d.connections ++ [.opened peer] }
  | .transport k l => do
    let c ← d.connections[k]?
    if ofTasks l then
      let (c', evs) ← c.advance l
      some (evs.foldl (occur k) { d with connections := d.connections.set k c' })
    else none
  | .process id => do
    let s ← d.cluster.nodes.lookup id
    let m ← d.inbox.find? fun m => m.dst = id
    if s.shutdown = .running then
      some { d with
        cluster := d.cluster.setServer id
          (s.enqueue (PeerMessageHandler.handleReceivedEnvelope m.envelope.1))
        inbox := d.inbox.eraseP fun m => m.dst = id }
    else none
  | .remove id peer => do
    let cluster ← d.cluster.step (.disconnect id peer)
    some ({ d with cluster }.dropHandle id peer)

end Deployment

end ExperimentalCrdt
