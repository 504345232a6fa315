import ExperimentalCrdt.Gc.Coordinator

/-!
# Outbound tasks

`peers/peer_connector.rs`, `peers/peer_registry.rs` and the connections of
`network/tcp_connection.rs`, as far as they change who is connected: one task for each peer that the
process dials, the registry of peers, and the connections that were accepted.

A task looks its address up once and ends if that fails; otherwise it connects again and again until
it is aborted. The registry is written when a handshake is complete, under the id the other side
names, and a connection that ends is not taken out of it. What is sent over the connections, and how
long a task waits, is left out.
-/

namespace ExperimentalCrdt

/-- Where an outbound task is; connected, the peer is the one that answered the handshake. -/
inductive TaskPhase where
  | lookingUp
  | connecting
  | connected (remoteNodeId : NodeId)
  | backoff
  | ended
deriving DecidableEq

structure OutboundTask where
  address : String
  phase : TaskPhase
deriving DecidableEq

/-- What the tasks of a process share. `inbound` are the accepted connections that are up. -/
structure Peers where
  outboundTasks : HashMap NodeId OutboundTask
  registry : PeerRegistry
  inbound : List NodeId

def Peers.initial : Peers := { outboundTasks := ∅, registry := ∅, inbound := [] }

/-- A spawned task begins with its lookup. -/
def spawnOutbound (address : String) : OutboundTask := { address, phase := .lookingUp }

structure PeerConnector where
  nodeId : NodeId
  allowBidirectional : Bool
deriving DecidableEq

namespace PeerConnector

def addPeer (self : PeerConnector) (peers : Peers) (nodeId : NodeId) (addr : String) : Peers :=
  if !self.allowBidirectional && decide (nodeId ≤ self.nodeId) then peers
  else if nodeId ∈ peers.outboundTasks then peers
  else { peers with outboundTasks := peers.outboundTasks.insert nodeId (spawnOutbound addr) }

def removePeer (peers : Peers) (nodeId : NodeId) : Peers :=
  { peers with
    outboundTasks := peers.outboundTasks.erase nodeId, registry := peers.registry.erase nodeId }

/-- The peers that this node dials; the others are to dial it. -/
def MeantToDial (self : PeerConnector) (nodeId : NodeId) : Prop :=
  self.allowBidirectional = true ∨ self.nodeId < nodeId

end PeerConnector

/-- What happens to the connections. The first argument of an outbound event is the peer its task
was spawned for. -/
inductive ConnectionEvent where
  | lookedUp (task : NodeId) (found : Bool)
  | failed (task : NodeId)
  | handshaken (task : NodeId) (remoteNodeId : NodeId) (remoteGcReplica : Bool)
  | closed (task : NodeId) (remoteNodeId : NodeId)
  | retried (task : NodeId)
  | accepted (remoteNodeId : NodeId) (remoteGcReplica : Bool)
  | inboundClosed (remoteNodeId : NodeId)
deriving DecidableEq

namespace Peers

/-- A task goes from one phase to another. -/
def setPhase (peers : Peers) (task : NodeId) (phase : TaskPhase) : Peers :=
  match peers.outboundTasks.lookup task with
  | some τ => { peers with outboundTasks := peers.outboundTasks.insert task { τ with phase } }
  | none => peers

def phaseOf (peers : Peers) (task : NodeId) : Option TaskPhase :=
  (peers.outboundTasks.lookup task).map fun τ => τ.phase

def register (peers : Peers) (remoteNodeId : NodeId) (remoteGcReplica : Bool) : Peers :=
  { peers with registry := peers.registry.insert remoteNodeId remoteGcReplica }

def advance (peers : Peers) (task : NodeId) (φ phase : TaskPhase) : Option Peers :=
  if peers.phaseOf task = some φ then some (peers.setPhase task phase) else none

/-- The event, if it can happen: a task is where the event leaves it from. -/
def onEvent (peers : Peers) : ConnectionEvent → Option Peers
  | .lookedUp task found => peers.advance task .lookingUp (if found then .connecting else .ended)
  | .failed task => peers.advance task .connecting .backoff
  | .handshaken task remoteNodeId remoteGcReplica =>
    (peers.advance task .connecting (.connected remoteNodeId)).map fun p =>
      p.register remoteNodeId remoteGcReplica
  | .closed task remoteNodeId => peers.advance task (.connected remoteNodeId) .backoff
  | .retried task => peers.advance task .backoff .connecting
  | .accepted remoteNodeId remoteGcReplica =>
    some { peers.register remoteNodeId remoteGcReplica with
      inbound := remoteNodeId :: peers.inbound }
  | .inboundClosed remoteNodeId =>
    if remoteNodeId ∈ peers.inbound then some
      { peers with inbound := peers.inbound.erase remoteNodeId } else none

/-- A task that has not ended. -/
def Running (peers : Peers) (task : NodeId) (τ : OutboundTask) : Prop :=
  peers.outboundTasks.lookup task = some τ ∧ τ.phase ≠ .ended

/-- There is a connection to the peer, whoever made it. -/
def Connected (peers : Peers) (nodeId : NodeId) : Prop :=
  nodeId ∈ peers.inbound ∨ ∃ task, peers.phaseOf task = some (.connected nodeId)

variable {peers peers' : Peers} {task nodeId : NodeId} {phase φ : TaskPhase} {τ : OutboundTask}
  {event : ConnectionEvent}

theorem phaseOf_eq_some_iff : peers.phaseOf task = some φ ↔
    ∃ τ, peers.outboundTasks.lookup task = some τ ∧ τ.phase = φ :=
  Option.map_eq_some_iff

/-! ## What an event changes -/

theorem lookup_setPhase : (peers.setPhase task phase).outboundTasks.lookup nodeId =
    if nodeId = task then (peers.outboundTasks.lookup task).map fun τ => { τ with phase }
    else peers.outboundTasks.lookup nodeId := by
  unfold setPhase
  split
  · next τ hτ =>
    rw [AList.lookup_insert_eq, hτ]
    rfl
  · next hnone =>
    split
    · next h => rw [h, hnone, Option.map_none]
    · rfl

@[simp] theorem setPhase_registry : (peers.setPhase task phase).registry = peers.registry := by
  unfold setPhase
  split <;> rfl

@[simp] theorem setPhase_inbound : (peers.setPhase task phase).inbound = peers.inbound := by
  unfold setPhase
  split <;> rfl

/-- Tasks keep their addresses and do not start again; they end, connections end, only by their
events. -/
structure EventMove (peers peers' : Peers) (event : ConnectionEvent) : Prop where
  registry : ∀ p ∈ peers.registry, p ∈ peers'.registry
  inbound : ∀ p ∈ peers.inbound, p ∈ peers'.inbound ∨ event = .inboundClosed p
  task : ∀ p τ', peers'.Running p τ' → ∃ τ, peers.Running p τ ∧ τ'.address = τ.address
  vacant : ∀ p, p ∉ peers.outboundTasks → p ∉ peers'.outboundTasks
  running : ∀ p τ, peers.Running p τ → (∃ τ', peers'.Running p τ') ∨ event = .lookedUp p false
  connected : ∀ q p, peers.phaseOf q = some (.connected p) →
    peers'.phaseOf q = some (.connected p) ∨ event = .closed q p

theorem EventMove.register (h : EventMove peers peers' event) (remoteNodeId : NodeId)
    (remoteGcReplica : Bool) :
    EventMove peers (peers'.register remoteNodeId remoteGcReplica) event where
  registry p hp := (AList.mem_insert _).mpr (Or.inr (h.registry p hp))
  inbound := h.inbound
  task := h.task
  vacant := h.vacant
  running := h.running
  connected := h.connected

theorem advance_move (h : peers.advance task φ phase = some peers') (hrunning : φ ≠ .ended)
    (hend : phase = .ended → event = .lookedUp task false)
    (hclose : ∀ p, φ = .connected p → event = .closed task p) : EventMove peers peers' event := by
  obtain ⟨hφ, heq⟩ := Option.ite_none_right_eq_some.mp h
  obtain rfl := Option.some.inj heq
  obtain ⟨τ, hτ, rfl⟩ := phaseOf_eq_some_iff.mp hφ
  have hlookup : ∀ p, (peers.setPhase task phase).outboundTasks.lookup p =
      if p = task then some { τ with phase } else peers.outboundTasks.lookup p := by
    intro p
    rw [lookup_setPhase, hτ]
    rfl
  refine ⟨fun p hp => ?_, fun p hp => ?_, fun p τ' h => ?_, fun p hp => ?_,
    fun p τ' h => ?_, fun q p hq => ?_⟩
  · rw [setPhase_registry]
    exact hp
  · rw [setPhase_inbound]
    exact Or.inl hp
  · obtain ⟨hp, hphase⟩ := h
    rw [hlookup] at hp
    split at hp
    · next heq =>
      obtain rfl := Option.some.inj hp
      exact ⟨τ, ⟨heq ▸ hτ, hrunning⟩, rfl⟩
    · exact ⟨τ', ⟨hp, hphase⟩, rfl⟩
  · rw [← AList.lookup_eq_none, hlookup]
    have hne : p ≠ task := by
      rintro rfl
      exact hp (AList.mem_of_lookup hτ)
    rw [if_neg hne]
    exact AList.lookup_eq_none.mpr hp
  · obtain ⟨hp, hphase⟩ := h
    by_cases heq : p = task
    · by_cases hended : phase = .ended
      · rw [heq]
        exact Or.inr (hend hended)
      · refine Or.inl ⟨{ τ with phase }, ?_, hended⟩
        rw [hlookup, if_pos heq]
    · refine Or.inl ⟨τ', ?_, hphase⟩
      rw [hlookup, if_neg heq]
      exact hp
  · by_cases heq : q = task
    · rw [heq, hφ] at hq
      rw [heq]
      exact Or.inr (hclose p (Option.some.inj hq))
    · refine Or.inl ?_
      unfold phaseOf at hq ⊢
      rw [hlookup, if_neg heq]
      exact hq

theorem eventMove (h : peers.onEvent event = some peers') : EventMove peers peers' event := by
  cases event with
  | lookedUp task found =>
    refine advance_move h (by decide) (fun hended => ?_) fun p hp => nomatch hp
    cases found with
    | true => cases hended
    | false => rfl
  | failed task =>
    exact advance_move h (by decide) (fun hended => nomatch hended) fun p hp => nomatch hp
  | handshaken task remoteNodeId remoteGcReplica =>
    obtain ⟨p, hp, rfl⟩ := Option.map_eq_some_iff.mp h
    refine EventMove.register ?_ remoteNodeId remoteGcReplica
    exact advance_move hp (by decide) (fun hended => nomatch hended) fun p hp => nomatch hp
  | closed task remoteNodeId =>
    refine advance_move h (fun hended => nomatch hended) (fun hended => nomatch hended)
      fun p hp => ?_
    rw [TaskPhase.connected.inj hp]
  | retried task =>
    exact advance_move h (by decide) (fun hended => nomatch hended) fun p hp => nomatch hp
  | accepted remoteNodeId remoteGcReplica =>
    obtain rfl := Option.some.inj h
    exact {
      registry := fun p hp => (AList.mem_insert _).mpr (Or.inr hp)
      inbound := fun p hp => Or.inl (List.mem_cons_of_mem _ hp)
      task := fun p τ' h => ⟨τ', h, rfl⟩
      vacant := fun p hp => hp
      running := fun p τ' h => Or.inl ⟨τ', h⟩
      connected := fun q p hq => Or.inl hq }
  | inboundClosed remoteNodeId =>
    obtain ⟨-, heq⟩ := Option.ite_none_right_eq_some.mp h
    obtain rfl := Option.some.inj heq
    have hkept : ∀ p ∈ peers.inbound, p ∈ peers.inbound.erase remoteNodeId ∨
        ConnectionEvent.inboundClosed remoteNodeId = .inboundClosed p := by
      intro p hp
      by_cases heq : p = remoteNodeId
      · rw [heq]
        exact Or.inr rfl
      · exact Or.inl ((List.mem_erase_of_ne heq).mpr hp)
    exact {
      registry := fun p hp => hp
      inbound := hkept
      task := fun p τ' h => ⟨τ', h, rfl⟩
      vacant := fun p hp => hp
      running := fun p τ' h => Or.inl ⟨τ', h⟩
      connected := fun q p hq => Or.inl hq }

end Peers

end ExperimentalCrdt
