import ExperimentalCrdt.Gc.Coordinator

/-!
# Dissemination

`network/dissemination.rs`, the push-pull strategy the server runs: after a local operation, after a
merge and in every pull round it advertises the version vector to one random connected peer, and it
answers a pull request with a delta, a request of its own, or both in one message.

The random peer is an argument. What a function returns are the envelopes handed to the connections;
`send_to_peer` fails silently for a peer that is not connected. The round counter only feeds the
metrics and is left out.
-/

namespace ExperimentalCrdt

/-- The two messages the protocol exchanges. -/
inductive Envelope (E : Type) where
  | crdtOp (crdtId : String) (payload : OrSetDelta E) (originNodeId : NodeId)
      (requesterKnowledge : Option CausalContext) (knowledgeMatrix : Option MatrixClock)
  | crdtPullRequest (crdtId : String) (gcReplica : Bool) (originNodeId : NodeId)
      (knowledge : Option CausalContext)

/-- Envelopes on their way to a peer. -/
abbrev Outbox (E : Type) := List (NodeId × Envelope E)

namespace PushPull

variable {E : Type}

def makeCrdtOpEnvelope (crdtId : String) (originNodeId : NodeId) (payload : OrSetDelta E)
    (knowledgeMatrix : Option MatrixClock) (requesterKnowledge : Option CausalContext) :
    Envelope E :=
  .crdtOp crdtId payload originNodeId requesterKnowledge knowledgeMatrix

def makePullRequestEnvelope (crdtId : String) (originNodeId : NodeId) (gcReplica : Bool)
    (knowledge : CausalContext) : Envelope E :=
  .crdtPullRequest crdtId gcReplica originNodeId (some knowledge)

def sendToPeer (registry : PeerRegistry) (nodeId : NodeId) (envelope : Envelope E) : Outbox E :=
  if nodeId ∈ registry then [(nodeId, envelope)] else []

/-- `choice` is the random peer; nobody is chosen from an empty registry. -/
def pushVersionVector (registry : PeerRegistry) (choice : Option NodeId) (originNodeId : NodeId)
    (crdtId : String) (gcReplica : Bool) (knowledge : CausalContext) : Outbox E :=
  match choice with
  | some randomPeerId =>
    sendToPeer registry randomPeerId
      (makePullRequestEnvelope crdtId originNodeId gcReplica knowledge)
  | none => []

def onPostMerge (registry : PeerRegistry) (choice : Option NodeId) (originNodeId : NodeId)
    (crdtId : String) (gcReplica : Bool) (knowledge : CausalContext) : Outbox E :=
  pushVersionVector registry choice originNodeId crdtId gcReplica knowledge

def doPullRound (registry : PeerRegistry) (choice : Option NodeId) (nodeId : NodeId)
    (crdtId : String) (gcReplica : Bool) (knowledge : CausalContext) : Outbox E :=
  pushVersionVector registry choice nodeId crdtId gcReplica knowledge

def respondToPullRequest (registry : PeerRegistry) (fromNode : NodeId) (crdtId : String)
    (originNodeId : NodeId) (deltaPayload : Option (OrSetDelta E)) (gcReplica : Bool)
    (knowledgeMatrix : Option MatrixClock) (ourKnowledge : Option CausalContext) : Outbox E :=
  match deltaPayload, ourKnowledge with
  | some payload, some knowledge =>
    -- piggyback the request on the delta to save a round-trip
    sendToPeer registry fromNode
      (makeCrdtOpEnvelope crdtId originNodeId payload knowledgeMatrix (some knowledge))
  | some payload, none =>
    sendToPeer registry fromNode
      (makeCrdtOpEnvelope crdtId originNodeId payload knowledgeMatrix none)
  | none, some knowledge =>
    sendToPeer registry fromNode (makePullRequestEnvelope crdtId originNodeId gcReplica knowledge)
  | none, none => []

end PushPull

end ExperimentalCrdt
