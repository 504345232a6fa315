import ExperimentalCrdt.Network.Dissemination

/-!
# The replication engine

`engine/crdt_engine.rs`. The engine owns the replica and works through a queue of requests one at a
time. A request that only computes is one step (`handle`); `initiate_gc` and the bootstrap that
precedes the first request await the bucket, so while one of them runs it is the engine's `task` and
the queue waits. The requests that print or log are left out: they change nothing and send nothing.

`log_metrics` of the coordinator, called from the two message handlers, only reads and logs; it is
left out as well.
-/

namespace ExperimentalCrdt

inductive CrdtEngineRequest (E : Type) where
  | doPullRound
  | clientOperation (op : OrSetOp E)
  | deltaRequest (fromNode : NodeId) (crdtId : String) (remoteKnowledge : CausalContext)
  | deltaResponse (fromNode : NodeId) (crdtId : String) (payload : OrSetDelta E)
      (knowledgeMatrix : Option MatrixClock)
  | deregistrationState
  | initiateGc
  | observeEpochChange

/-- The async call the engine is in the middle of. -/
inductive EngineTask (E : Type) where
  | idle
  | newReplicaBootstrap (pc : NewReplicaBootstrap)
  | initiateGc (pc : InitiateGc E)

/-- The task after a step of an async call; a result is logged at most, and dropped. -/
def EngineTask.ofProgress {E P R : Type} (running : P → EngineTask E) : Progress P R → EngineTask E
  | .await pc => running pc
  | .returned _ => .idle

structure CrdtEngine (E : Type) (id : NodeId) where
  crdtId : String
  replica : Replica E id
  task : EngineTask E
  rx : List (CrdtEngineRequest E)

namespace CrdtEngine

variable {E : Type} [DecidableEq E] {id : NodeId}

/-- A fresh engine: `run` starts with the bootstrap. -/
def new (crdtId : String) (gcReplica : Bool) : CrdtEngine E id :=
  { crdtId, replica := .new gcReplica, task := .newReplicaBootstrap .readEpochMetadata, rx := [] }

variable (self : CrdtEngine E id) (registry : PeerRegistry) (choice : Option NodeId)

/-- The dot `client_operation` mints. -/
def nextDot : Dot := self.replica.dvv.event.dot

def clientOperation (op : OrSetOp E) : CrdtEngine E id × Outbox E :=
  let dvv := self.replica.dvv.event
  let replica : Replica E id :=
    { self.replica with
      dvv, crdt := self.replica.crdt.applyLocal self.nextDot op, dvv_owner :=
        self.replica.dvv_owner }
  ({ self with replica },
    PushPull.pushVersionVector registry choice id self.crdtId replica.gc.gcReplica dvv.effectiveMap)

/-- Join incoming rows of knowledge into the matrix clock, if there is one. -/
def learnMatrix (knowledgeMatrix : MatrixClock) : CrdtEngine E id :=
  { self with
    replica := { self.replica with gc := self.replica.gc.updateMatrixClock knowledgeMatrix } }

/-- Merge the state of a delta, then its causal context. -/
def mergeDelta (delta : OrSetDelta E) : CrdtEngine E id :=
  { self with
    replica :=
      { self.replica with
        crdt := self.replica.crdt.mergeDelta delta
        dvv := self.replica.dvv.merge delta.causalContext
        dvv_owner := (self.replica.dvv.merge_dot_nodeId _).trans self.replica.dvv_owner } }

def serverDelta (crdtId : String) (delta : OrSetDelta E) (knowledgeMatrix : Option MatrixClock) :
    CrdtEngine E id × Outbox E :=
  if crdtId ≠ self.crdtId then (self, [])
  else
    let engine := ((knowledgeMatrix.elim self self.learnMatrix).mergeDelta delta)
    (engine,
      PushPull.onPostMerge registry choice id self.crdtId engine.replica.gc.gcReplica
        engine.replica.dvv.effectiveMap)

/-- Whether the peer announced itself as a GC replica; `false` for an unknown peer. -/
def isGcPeer (registry : PeerRegistry) (nodeId : NodeId) : Bool :=
  (registry.lookup nodeId).getD false

/-- The delta for a peer, unless it knows everything and no two GC replicas talk to each other. -/
def deltaPayload (fromNode : NodeId) (remoteKnowledge : CausalContext) : Option (OrSetDelta E) :=
  let communicationBetweenGcReplicas := self.replica.gc.gcReplica && isGcPeer registry fromNode
  let dvvDelta := self.replica.dvv.deltaSince remoteKnowledge
  if communicationBetweenGcReplicas || dvvDelta.dot.counter != 0 ||
    !dvvDelta.context.entries.isEmpty then
    some (self.replica.crdt.deltaSince remoteKnowledge self.replica.dvv)
  else none

/-- The engine's own knowledge, if the remote is ahead of it somewhere. -/
def ourKnowledgeRequest (remoteKnowledge : CausalContext) : Option CausalContext :=
  let ourKnowledge := self.replica.dvv.effectiveMap
  let weAreFullyAhead := remoteKnowledge.entries.all fun e =>
    decide (e.2 ≤ counterAt ourKnowledge e.1)
  if weAreFullyAhead then none else some ourKnowledge

def serverPullRequest (fromNode : NodeId) (crdtId : String) (remoteKnowledge : CausalContext) :
    CrdtEngine E id × Outbox E :=
  if crdtId ≠ self.crdtId then (self, [])
  else
    let engine := self.learnMatrix ((∅ : MatrixClock).insert fromNode remoteKnowledge)
    let knowledgeMatrix :=
      if isGcPeer registry fromNode then engine.replica.gc.getKnowledgeMatrix registry else none
    (engine,
      PushPull.respondToPullRequest registry fromNode self.crdtId id
        (engine.deltaPayload registry fromNode remoteKnowledge) engine.replica.gc.gcReplica
        knowledgeMatrix (engine.ourKnowledgeRequest remoteKnowledge))

/-- The counter that `get_final_state_for_deregistration` reports. -/
def finalDot : Nat := (self.replica.crdt.fullState self.replica.dvv).causalContext.dot.counter

/-- One request from the queue; `epochMetadata` is what a read of the bucket returns. The reply to
`deregistrationState` goes back to the server. -/
def handle (epochMetadata : EpochMetadata) : CrdtEngineRequest E → CrdtEngine E id × Outbox E
  | .doPullRound =>
    (self, PushPull.doPullRound registry choice id self.crdtId self.replica.gc.gcReplica
      self.replica.dvv.effectiveMap)
  | .clientOperation op => self.clientOperation registry choice op
  | .deltaRequest fromNode crdtId remoteKnowledge =>
    self.serverPullRequest registry fromNode crdtId remoteKnowledge
  | .deltaResponse _ crdtId payload knowledgeMatrix =>
    self.serverDelta registry choice crdtId payload knowledgeMatrix
  | .deregistrationState => (self, [])
  | .initiateGc => ({ self with task := .initiateGc .readEpochMetadata }, [])
  | .observeEpochChange =>
    ({ self with replica := self.replica.observeEpochChange epochMetadata }, [])

end CrdtEngine

/-- `handle_received_envelope`: the requests a received envelope puts into the engine's queue. -/
def handleReceivedEnvelope {E : Type} : Envelope E → List (CrdtEngineRequest E)
  | .crdtOp crdtId payload originNodeId requesterKnowledge knowledgeMatrix =>
    .deltaResponse originNodeId crdtId payload knowledgeMatrix ::
      match requesterKnowledge with
      | some vc => if vc.entries.isEmpty then [] else [.deltaRequest originNodeId crdtId vc]
      | none => []
  | .crdtPullRequest crdtId _ originNodeId knowledge =>
    [.deltaRequest originNodeId crdtId (knowledge.getD ∅)]

end ExperimentalCrdt
