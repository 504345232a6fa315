import ExperimentalCrdt.Engine.CrdtEngine
import ExperimentalCrdt.Lib.Transition

/-!
# The cluster

The servers of `server/mod.rs`, the bucket they share, and the envelopes in flight between them. A
step is one thing that can happen: a local timer or client puts a request into an engine's queue, an
envelope arrives, gets duplicated or lost, an engine works off the next request or gets the answer
to the storage call it awaits, a connection comes or goes, a server starts, refreshes its
registration, or shuts down call by call.

Next to what the program holds, the state records what has happened: the client operations with the
knowledge their performer had (`history`), and the metadata that was committed (`commits`). No step
reads them.
-/

namespace ExperimentalCrdt

/-- Where `handle_shutdown` is. -/
inductive Shutdown where
  | running
  | awaitFinalDot
  | putFinalDot (finalDot : Nat)
  | deleteRegistration
  | abort
deriving DecidableEq, Repr

structure Server (E : Type) (id : NodeId) where
  engine : CrdtEngine E id
  registry : PeerRegistry
  shutdown : Shutdown

structure Packet (E : Type) where
  src : NodeId
  dst : NodeId
  envelope : Envelope E

/-- A client operation that was performed: its dot, and the knowledge of its performer before it. -/
structure Performed (E : Type) where
  dot : Dot
  op : OrSetOp E
  past : CausalContext

structure Cluster (E : Type) where
  nodes : AList fun id : NodeId => Server E id
  storage : Storage E
  network : List (Packet E)
  history : List (Performed E)
  commits : List EpochMetadata

/-- The requests that timers and clients put into a queue. Only a GC replica has the timer that
initiates. -/
inductive LocalRequest (E : Type) where
  | doPullRound
  | clientOperation (op : OrSetOp E)
  | initiateGc
  | observeEpochChange

def LocalRequest.toRequest {E : Type} : LocalRequest E → CrdtEngineRequest E
  | .doPullRound => .doPullRound
  | .clientOperation op => .clientOperation op
  | .initiateGc => .initiateGc
  | .observeEpochChange => .observeEpochChange

inductive Label (E : Type) where
  | request (id : NodeId) (req : LocalRequest E)
  | receive (i : Nat)
  | duplicate (i : Nat)
  | drop (i : Nat)
  | handle (id : NodeId) (choice : Option NodeId)
  | resume (id : NodeId) (ok : Bool)
  | connect (id peer : NodeId) (gcReplica : Bool)
  | disconnect (id peer : NodeId)
  | start (id : NodeId) (gcReplica : Bool)
  | heartbeat (id : NodeId)
  | beginShutdown (id : NodeId)
  | continueShutdown (id : NodeId) (ok : Bool)

/-- The storage call that this label answers, if any, succeeds. -/
def Label.succeeds {E : Type} : Label E → Bool
  | .resume _ ok => ok
  | .continueShutdown _ ok => ok
  | _ => true

namespace Server

variable {E : Type} [DecidableEq E] {id : NodeId} (self : Server E id)

/-- The name `run` gives the one replicated set. -/
def crdtId : String := "default-orset"

/-- A server whose engine is about to bootstrap. -/
def new (gcReplica : Bool) : Server E id :=
  { engine := .new crdtId gcReplica, registry := ∅, shutdown := .running }

/-- A server whose engine has bootstrapped from a bucket without epochs. -/
def serving (gcReplica : Bool) : Server E id :=
  { engine := { CrdtEngine.new crdtId gcReplica with task := .idle }, registry := ∅,
    shutdown := .running }

/-- Put requests at the end of the engine's queue. -/
def enqueue (reqs : List (CrdtEngineRequest E)) : Server E id :=
  { self with engine := { self.engine with rx := self.engine.rx ++ reqs } }

/-- Work off one request, which has been taken from the queue already. -/
def handle (epochMetadata : EpochMetadata) (choice : Option NodeId) (req : CrdtEngineRequest E) :
    Server E id × Outbox E :=
  let handled := self.engine.handle self.registry choice epochMetadata req
  ({ self with
      engine := handled.1
      shutdown :=
        match req with
        | .deregistrationState => .putFinalDot self.engine.finalDot
        | _ => self.shutdown },
    handled.2)

/-- The answer to the storage call the engine awaits. -/
def resume (ok : Bool) (storage : Storage E) : Option (Server E id × Storage E) :=
  match self.engine.task with
  | .idle => none
  | .newReplicaBootstrap pc =>
    let out := pc.resume ok self.engine.replica storage
    let engine :=
      { self.engine with task := .ofProgress .newReplicaBootstrap out.1, replica := out.2 }
    some ({ self with engine }, storage)
  | .initiateGc pc =>
    let out := pc.resume ok self.engine.replica storage
    let engine := { self.engine with task := .ofProgress .initiateGc out.1, replica := out.2.1 }
    some ({ self with engine }, out.2.2)

end Server

namespace Cluster

variable {E : Type} [DecidableEq E]

/-- Servers that serve from the start, over a bucket that knows no epoch. -/
def fixed (members : HashMap NodeId Bool) : Cluster E :=
  { nodes := members.mapWithKey fun _ gcReplica => .serving gcReplica
    storage := .fresh (members.mapValues fun _ => ())
    network := []
    history := []
    commits := [] }

/-- Replace the server `id`. -/
def setServer (c : Cluster E) (id : NodeId) (s : Server E id) : Cluster E :=
  { c with nodes := c.nodes.insert id s }

/-- Hand envelopes to the connections of `src`. -/
def send (c : Cluster E) (src : NodeId) (outbox : Outbox E) : Cluster E :=
  { c with network := c.network ++ outbox.map fun m => ⟨src, m.1, m.2⟩ }

/-- What a request leaves in the record: a client operation is performed. -/
def performed {id : NodeId} (s : Server E id) : CrdtEngineRequest E → List (Performed E)
  | .clientOperation op => [⟨s.engine.nextDot, op, s.engine.replica.dvv.effectiveMap⟩]
  | _ => []

/-- The metadata an answered call of `initiate_gc` commits: that of a successful write. -/
def committedBy (ok : Bool) : InitiateGc E → List EpochMetadata
  | .writeEpochMetadata epochMetadata => if ok then [epochMetadata] else []
  | _ => []

/-- What an answered storage call leaves in the record. -/
def committed {id : NodeId} (s : Server E id) (ok : Bool) : List EpochMetadata :=
  match s.engine.task with
  | .initiateGc pc => committedBy ok pc
  | _ => []

/-- Whether this server may put the request into its queue. -/
def mayRequest {id : NodeId} (s : Server E id) : LocalRequest E → Bool
  | .initiateGc => s.engine.replica.gc.gcReplica
  | _ => true

def continueShutdown (c : Cluster E) (id : NodeId) (s : Server E id) (ok : Bool) :
    Option (Cluster E) :=
  match s.shutdown with
  | .running | .awaitFinalDot => none
  | .putFinalDot finalDot =>
    -- a failed put skips the deletions
    if ok then
      some { c.setServer id { s with shutdown := .deleteRegistration } with
        storage := c.storage.putFinalDot id finalDot }
    else some (c.setServer id { s with shutdown := .abort })
  | .deleteRegistration =>
    some { c.setServer id { s with shutdown := .abort } with
      storage := if ok then c.storage.deleteRegistration id else c.storage }
  | .abort => some { c with nodes := c.nodes.erase id }

def step (c : Cluster E) : Label E → Option (Cluster E)
  | .request id req => do
    let s ← c.nodes.lookup id
    if mayRequest s req then some (c.setServer id (s.enqueue [req.toRequest])) else none
  | .receive i => do
    let p ← c.network[i]?
    let s ← c.nodes.lookup p.dst
    if s.shutdown = .running then
      some { c.setServer p.dst (s.enqueue (handleReceivedEnvelope p.envelope)) with
        network := c.network.eraseIdx i }
    else none
  | .duplicate i => do
    let p ← c.network[i]?
    some { c with network := c.network ++ [p] }
  | .drop i =>
    if i < c.network.length then some { c with network := c.network.eraseIdx i } else none
  | .handle id choice => do
    let s ← c.nodes.lookup id
    match s.engine.task, s.engine.rx with
    | .idle, req :: rest =>
      let taken : Server E id := { s with engine := { s.engine with rx := rest } }
      let handled := taken.handle c.storage.readEpochMetadata choice req
      some { (c.setServer id handled.1).send id handled.2 with
        history := c.history ++ performed taken req }
    | _, _ => none
  | .resume id ok => do
    let s ← c.nodes.lookup id
    let (s', storage) ← s.resume ok c.storage
    some { c.setServer id s' with storage, commits := c.commits ++ committed s ok }
  | .connect id peer gcReplica => do
    let s ← c.nodes.lookup id
    some (c.setServer id { s with registry := s.registry.insert peer gcReplica })
  | .disconnect id peer => do
    let s ← c.nodes.lookup id
    some (c.setServer id { s with registry := s.registry.erase peer })
  | .start id gcReplica =>
    if id ∈ c.nodes then none
    else some { c.setServer id (.new gcReplica) with storage := c.storage.register id }
  | .heartbeat id => do
    let _ ← c.nodes.lookup id
    some { c with storage := c.storage.register id }
  | .beginShutdown id => do
    let s ← c.nodes.lookup id
    if s.shutdown = .running then
      some (c.setServer id { s.enqueue [.deregistrationState] with shutdown := .awaitFinalDot })
    else none
  | .continueShutdown id ok => do
    let s ← c.nodes.lookup id
    c.continueShutdown id s ok

end Cluster

end ExperimentalCrdt
