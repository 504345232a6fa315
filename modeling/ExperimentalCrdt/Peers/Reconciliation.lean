import ExperimentalCrdt.Lib.Transition
import ExperimentalCrdt.Peers.Discovery
import ExperimentalCrdt.Peers.PeerConnector

/-!
# Peer reconciliation

`run_discovery_loop` in `peers/discovery.rs`: every round registers, lists the desired peers, and
compares them with the registry of peers. Those that are missing are added, which is for nothing if
there is a task for the peer already; those in the registry that are not desired are removed. So a
task outlives its peer if it never connected, keeps an old address, and stays in the way once it has
ended. `reconciled_of_undisturbed` is what the rounds achieve where this does not come up.

A round is several steps here, one for every peer that is added or removed, and connections change
in between. The two loops of the source run over hash sets, so their order is arbitrary.
-/

namespace ExperimentalCrdt

open Transition (Reachable replay)

/-- What one iteration of the loops of a round does. -/
inductive ReconcileOp where
  | addPeer (nodeId : NodeId) (addr : String)
  | removePeer (nodeId : NodeId)
deriving DecidableEq

structure DiscoveryLoop where
  discovery : Discovery
  connectNodeIds : Option (List NodeId)
  connector : PeerConnector

namespace DiscoveryLoop

/-- `round` is what is left to do in the current round; `none` between rounds. -/
structure State where
  peers : Peers
  desired : HashMap NodeId NodeRegistration
  round : Option (List ReconcileOp)

def initial : State := { peers := .initial, desired := ∅, round := none }

def listLivePeers (self : DiscoveryLoop) (bucket : Bucket) : List NodeRegistration :=
  let all := (listLiveRegistrations bucket).filter fun r =>
    decide (r.nodeId ≠ self.discovery.nodeId)
  match self.connectNodeIds with
  | none => all
  | some allowedIds => all.filter fun r => decide (r.nodeId ∈ allowedIds)

def desiredPeers (self : DiscoveryLoop) (bucket : Bucket) : HashMap NodeId NodeRegistration :=
  AList.ofPairs ((self.listLivePeers bucket).map fun r => (r.nodeId, r))

def toAdd (desired : HashMap NodeId NodeRegistration) (registry : PeerRegistry) :
    List ReconcileOp :=
  (desired.toPairs.filter fun e => decide (e.1 ∉ registry)).map fun e => .addPeer e.1 e.2.addr

def toRemove (desired : HashMap NodeId NodeRegistration) (registry : PeerRegistry) :
    List ReconcileOp :=
  (registry.keys.filter fun nodeId => decide (nodeId ∉ desired)).map .removePeer

def reconcile (self : DiscoveryLoop) (peers : Peers) : ReconcileOp → Peers
  | .addPeer nodeId addr => self.connector.addPeer peers nodeId addr
  | .removePeer nodeId => PeerConnector.removePeer peers nodeId

/-- A tick comes with the bucket it finds, and the order in which the peers are gone through. -/
inductive Label where
  | tick (expiresAt : DateTime) (bucket : Bucket) (added removed : List ReconcileOp)
  | next
  | complete
  | connection (event : ConnectionEvent)

def step (self : DiscoveryLoop) (s : State) : Label → Option State
  | .tick expiresAt bucket added removed =>
    let desired := self.desiredPeers (self.discovery.register expiresAt bucket)
    if s.round = none ∧ added.Perm (toAdd desired s.peers.registry) ∧
      removed.Perm (toRemove desired s.peers.registry) then
      some { s with desired, round := some (added ++ removed) }
    else none
  | .next =>
    match s.round with
    | some (op :: ops) => some { s with peers := self.reconcile s.peers op, round := some ops }
    | _ => none
  | .complete => if s.round = some [] then some { s with round := none } else none
  | .connection event => (s.peers.onEvent event).map fun peers => { s with peers }

/-! ## The property -/

/-- In the registry, with a connection that is up. -/
def AlreadyConnected (peers : Peers) (nodeId : NodeId) : Prop :=
  nodeId ∈ peers.registry ∧ peers.Connected nodeId

/-- The outbound tasks are those of the desired peers, dialing where these are registered, as far as
this node is meant to dial them and is not connected to them. -/
structure Reconciled (l : DiscoveryLoop) (s : State) : Prop where
  task_desired : ∀ p τ, s.peers.Running p τ → ∃ r, s.desired.lookup p = some r ∧ τ.address = r.addr
  desired_task : ∀ p r, s.desired.lookup p = some r → l.connector.MeantToDial p →
    ¬ AlreadyConnected s.peers p → ∃ τ, s.peers.Running p τ ∧ τ.address = r.addr

/-! ## The condition -/

/-- Connected in a way that a round with these desired peers leaves alone. -/
def KeptConnected (peers : Peers) (desired : HashMap NodeId NodeRegistration) (nodeId : NodeId) :
    Prop :=
  nodeId ∈ peers.registry ∧
    (nodeId ∈ peers.inbound ∨ ∃ task ∈ desired, peers.phaseOf task = some (.connected nodeId))

/-- A desired peer is still to be added, or has a task, or is connected. -/
def Served (peers : Peers) (desired : HashMap NodeId NodeRegistration) (ops : List ReconcileOp)
    (nodeId : NodeId) :
    Prop :=
  ((∃ addr, .addPeer nodeId addr ∈ ops) ∧ nodeId ∉ peers.outboundTasks) ∨
    (∃ τ, peers.Running nodeId τ) ∨
    KeptConnected peers desired nodeId

/-- The tasks and the registry agree with each other as far as the desired peers go. -/
structure Prepared (l : DiscoveryLoop) (peers : Peers) (desired : HashMap NodeId NodeRegistration) :
    Prop where
  /-- No peer with a task is registered at another address than the task dials. -/
  address : ∀ p τ r, peers.Running p τ → desired.lookup p = some r → τ.address = r.addr
  /-- A peer with a task that is not desired any more was connected to. -/
  departed : ∀ p τ, peers.Running p τ → p ∉ desired → p ∈ peers.registry
  /-- A desired peer without a running task is new, or it is in the registry for a connection. -/
  missing : ∀ p ∈ desired, l.connector.MeantToDial p → (∀ τ, ¬ peers.Running p τ) →
    (p ∉ peers.registry ∧ p ∉ peers.outboundTasks) ∨ KeptConnected peers desired p

/-- The peer for which the event ends the task, or a connection that is not its task's own. -/
def Loses : ConnectionEvent → NodeId → Prop
  | .lookedUp task found, p => found = false ∧ p = task
  | .closed task remoteNodeId, p => p = remoteNodeId ∧ p ≠ task
  | .inboundClosed remoteNodeId, p => p = remoteNodeId
  | _, _ => False

/-- The steps that the rounds cope with: a round begins prepared, and while it lasts no desired peer
loses the last of what serves it. -/
def Undisturbed (self : DiscoveryLoop) (s : State) : Label → Prop
  | .tick expiresAt bucket _ _ =>
    Prepared self s.peers (self.desiredPeers (self.discovery.register expiresAt bucket))
  | .connection event =>
      ∀ ops, s.round = some ops → ∀ p ∈ s.desired, self.connector.MeantToDial p → Loses event p →
      ∀ peers, s.peers.onEvent event = some peers → Served peers s.desired ops p
  | _ => True

/-! ## What a round keeps -/

/-- With `ops` to do, what is wrong with the tasks is among them. -/
structure InRound (l : DiscoveryLoop) (peers : Peers) (desired : HashMap NodeId NodeRegistration)
    (ops : List ReconcileOp) : Prop where
  add : ∀ p addr, .addPeer p addr ∈ ops → ∃ r, desired.lookup p = some r ∧ r.addr = addr
  remove : ∀ p, .removePeer p ∈ ops → p ∉ desired
  task : ∀ p τ, peers.Running p τ → (∃ r, desired.lookup p = some r ∧ τ.address = r.addr) ∨
    .removePeer p ∈ ops
  served : ∀ p ∈ desired, l.connector.MeantToDial p → Served peers desired ops p

variable {self : DiscoveryLoop} {peers peers' : Peers} {desired : HashMap NodeId NodeRegistration}
  {ops : List ReconcileOp} {op : ReconcileOp} {registry : PeerRegistry} {p : NodeId}

theorem mem_toAdd : op ∈ toAdd desired registry ↔
    ∃ p r, desired.lookup p = some r ∧ p ∉ registry ∧ op = .addPeer p r.addr := by
  unfold toAdd
  simp only [List.mem_map, List.mem_filter, decide_eq_true_eq]
  constructor
  · rintro ⟨⟨p, r⟩, ⟨hp, hnot⟩, rfl⟩
    exact ⟨p, r, AList.mem_toPairs.mp hp, hnot, rfl⟩
  · rintro ⟨p, r, hp, hnot, rfl⟩
    exact ⟨(p, r), ⟨AList.mem_toPairs.mpr hp, hnot⟩, rfl⟩

theorem mem_toRemove : op ∈ toRemove desired registry ↔
    ∃ p, p ∈ registry ∧ p ∉ desired ∧ op = .removePeer p := by
  unfold toRemove
  simp only [List.mem_map, List.mem_filter, decide_eq_true_eq, AList.mem_keys]
  constructor
  · rintro ⟨p, ⟨hp, hnot⟩, rfl⟩
    exact ⟨p, hp, hnot, rfl⟩
  · rintro ⟨p, hp, hnot, rfl⟩
    exact ⟨p, ⟨hp, hnot⟩, rfl⟩

theorem InRound.start (h : Prepared self peers desired) {added removed : List ReconcileOp}
    (hadded : added.Perm (toAdd desired peers.registry))
    (hremoved : removed.Perm (toRemove desired peers.registry)) :
    InRound self peers desired (added ++ removed) := by
  have hmem : ∀ op, op ∈ added ++ removed ↔ op ∈ toAdd desired peers.registry ∨
      op ∈ toRemove desired peers.registry := by
    intro op
    rw [List.mem_append, hadded.mem_iff, hremoved.mem_iff]
  refine ⟨fun p addr hop => ?_, fun p hop => ?_, fun p τ hτ => ?_, fun p hp hdial => ?_⟩
  · rcases (hmem _).mp hop with hop | hop
    · obtain ⟨p', r, hp', -, heq⟩ := mem_toAdd.mp hop
      obtain ⟨rfl, rfl⟩ := ReconcileOp.addPeer.inj heq
      exact ⟨r, hp', rfl⟩
    · obtain ⟨p', -, -, heq⟩ := mem_toRemove.mp hop
      cases heq
  · rcases (hmem _).mp hop with hop | hop
    · obtain ⟨p', r, -, -, heq⟩ := mem_toAdd.mp hop
      cases heq
    · obtain ⟨p', -, hp', heq⟩ := mem_toRemove.mp hop
      obtain rfl := ReconcileOp.removePeer.inj heq
      exact hp'
  · by_cases hp : p ∈ desired
    · obtain ⟨r, hr⟩ := AList.mem_iff_lookup.mp hp
      exact Or.inl ⟨r, hr, h.address p τ r hτ hr⟩
    · exact Or.inr ((hmem _).mpr (Or.inr (mem_toRemove.mpr ⟨p, h.departed p τ hτ hp, hp, rfl⟩)))
  · by_cases hrunning : ∃ τ, peers.Running p τ
    · exact Or.inr (Or.inl hrunning)
    · rcases h.missing p hp hdial (fun τ hτ => hrunning ⟨τ, hτ⟩) with ⟨hreg, hvacant⟩ | hkept
      · obtain ⟨r, hr⟩ := AList.mem_iff_lookup.mp hp
        exact Or.inl ⟨⟨r.addr, (hmem _).mpr (Or.inl (mem_toAdd.mpr ⟨p, r, hr, hreg, rfl⟩))⟩,
          hvacant⟩
      · exact Or.inr (Or.inr hkept)

theorem Served.spawn {p' : NodeId} {addr : String} (h : Served peers desired ops p') (hne : p' ≠ p)
    (hvacant : p ∉ peers.outboundTasks) :
    Served { peers with outboundTasks := peers.outboundTasks.insert p (spawnOutbound addr) }
      desired ops p' := by
  rcases h with ⟨hop, hnew⟩ | ⟨τ, hτ, hrunning⟩ | ⟨hreg, hkept⟩
  · refine Or.inl ⟨hop, fun hmem => ?_⟩
    exact ((AList.mem_insert _).mp hmem).elim hne hnew
  · refine Or.inr (Or.inl ⟨τ, ?_, hrunning⟩)
    exact (AList.lookup_insert_ne hne).trans hτ
  · refine Or.inr (Or.inr ⟨hreg, ?_⟩)
    rcases hkept with hin | ⟨task, hdesired, hphase⟩
    · exact Or.inl hin
    · obtain ⟨τ, hτ, hconnected⟩ := Peers.phaseOf_eq_some_iff.mp hphase
      have hother : task ≠ p := by
        rintro rfl
        exact hvacant (AList.mem_of_lookup hτ)
      refine Or.inr ⟨task, hdesired, Peers.phaseOf_eq_some_iff.mpr ⟨τ, ?_, hconnected⟩⟩
      exact (AList.lookup_insert_ne hother).trans hτ

theorem Served.of_addPeer {p' : NodeId} {addr : String}
    (h : Served peers desired (.addPeer p addr :: ops) p') :
    p' = p ∧ p ∉ peers.outboundTasks ∨ Served peers desired ops p' := by
  rcases h with ⟨⟨a, hop⟩, hvacant⟩ | hrest
  · rcases List.mem_cons.mp hop with heq | hop
    · obtain ⟨rfl, rfl⟩ := ReconcileOp.addPeer.inj heq
      exact Or.inl ⟨rfl, hvacant⟩
    · exact Or.inr (Or.inl ⟨⟨a, hop⟩, hvacant⟩)
  · exact Or.inr (Or.inr hrest)

theorem InRound.addPeer {addr : String} (h : InRound self peers desired (.addPeer p addr :: ops)) :
    InRound self (self.connector.addPeer peers p addr) desired ops := by
  have hadd : ∀ p' a, .addPeer p' a ∈ ops → ∃ r, desired.lookup p' = some r ∧ r.addr = a :=
    fun p' a hop => h.add p' a (List.mem_cons_of_mem _ hop)
  have hremove : ∀ p', .removePeer p' ∈ ops → p' ∉ desired :=
    fun p' hop => h.remove p' (List.mem_cons_of_mem _ hop)
  have htask : ∀ p' τ, peers.Running p' τ →
      (∃ r, desired.lookup p' = some r ∧ τ.address = r.addr) ∨ .removePeer p' ∈ ops := by
    intro p' τ hτ
    rcases h.task p' τ hτ with hr | hop
    · exact Or.inl hr
    · exact Or.inr (List.mem_of_ne_of_mem (by simp) hop)
  unfold PeerConnector.addPeer
  split
  · next hskip =>
    refine ⟨hadd, hremove, htask, fun p' hp' hdial => ?_⟩
    rcases (h.served p' hp' hdial).of_addPeer with ⟨rfl, -⟩ | hserved
    · obtain ⟨hone, hle⟩ := Bool.and_eq_true_iff.mp hskip
      rcases hdial with hboth | hlt
      · rw [hboth] at hone
        cases hone
      · exact absurd hlt (of_decide_eq_true hle).not_gt
    · exact hserved
  · split
    · next hmem =>
      refine ⟨hadd, hremove, htask, fun p' hp' hdial => ?_⟩
      rcases (h.served p' hp' hdial).of_addPeer with ⟨-, hvacant⟩ | hserved
      · exact absurd hmem hvacant
      · exact hserved
    · next hvacant =>
      obtain ⟨r, hr, haddr⟩ := h.add p addr List.mem_cons_self
      refine ⟨hadd, hremove, fun p' τ hτ => ?_, fun p' hp' hdial => ?_⟩
      · obtain ⟨hτ, hrunning⟩ := hτ
        rw [AList.lookup_insert_eq] at hτ
        split at hτ
        · next heq =>
          obtain rfl := Option.some.inj hτ
          rw [heq]
          exact Or.inl ⟨r, hr, haddr.symm⟩
        · exact htask p' τ ⟨hτ, hrunning⟩
      · by_cases heq : p' = p
        · rw [heq]
          exact Or.inr (Or.inl ⟨spawnOutbound addr, AList.lookup_insert _, fun h => nomatch h⟩)
        · have hserved := (h.served p' hp' hdial).of_addPeer.resolve_left fun h => heq h.1
          exact hserved.spawn heq hvacant

theorem InRound.removePeer (h : InRound self peers desired (.removePeer p :: ops)) :
    InRound self (PeerConnector.removePeer peers p) desired ops := by
  have hp : p ∉ desired := h.remove p List.mem_cons_self
  have hlookup : ∀ p', p' ≠ p → (PeerConnector.removePeer peers p).outboundTasks.lookup p' =
      peers.outboundTasks.lookup p' := fun p' hne => AList.lookup_erase_ne hne
  refine ⟨fun p' a hop => h.add p' a (List.mem_cons_of_mem _ hop),
    fun p' hop => h.remove p' (List.mem_cons_of_mem _ hop), fun p' τ hτ => ?_,
      fun p' hp' hdial => ?_⟩
  · obtain ⟨hlookup', hrunning⟩ := hτ
    have hne : p' ≠ p := by
      rintro rfl
      rw [show (PeerConnector.removePeer peers p').outboundTasks.lookup p' =
        none from AList.lookup_erase _ _] at hlookup'
      cases hlookup'
    rw [hlookup p' hne] at hlookup'
    rcases h.task p' τ ⟨hlookup', hrunning⟩ with hr | hop
    · exact Or.inl hr
    · exact Or.inr (List.mem_of_ne_of_mem (fun heq => hne (ReconcileOp.removePeer.inj heq)) hop)
  · have hne : p' ≠ p := fun heq => hp (heq ▸ hp')
    rcases h.served p' hp' hdial with ⟨⟨a, hop⟩, hvacant⟩ | ⟨τ, hτ⟩ | ⟨hreg, hkept⟩
    · exact Or.inl ⟨⟨a, List.mem_of_ne_of_mem (by simp) hop⟩,
        fun hmem => hvacant (AList.mem_erase.mp hmem).2⟩
    · refine Or.inr (Or.inl ⟨τ, ?_, hτ.2⟩)
      rw [hlookup p' hne]
      exact hτ.1
    · refine Or.inr (Or.inr ⟨AList.mem_erase.mpr ⟨hne, hreg⟩, ?_⟩)
      rcases hkept with hin | ⟨task, htask, hphase⟩
      · exact Or.inl hin
      · refine Or.inr ⟨task, htask, ?_⟩
        unfold Peers.phaseOf at hphase ⊢
        rw [hlookup task fun heq => hp (heq ▸ htask)]
        exact hphase

theorem InRound.connection {event : ConnectionEvent} (h : InRound self peers desired ops)
    (hstep : peers.onEvent event = some peers')
    (hlost : ∀ p ∈ desired, self.connector.MeantToDial p → Loses event p →
      Served peers' desired ops p) :
    InRound self peers' desired ops := by
  have hmove := Peers.eventMove hstep
  refine ⟨h.add, h.remove, fun p τ' hτ' => ?_, fun p hp hdial => ?_⟩
  · obtain ⟨τ, hτ, haddr⟩ := hmove.task p τ' hτ'
    rw [haddr]
    exact h.task p τ hτ
  · by_cases hloses : Loses event p
    · exact hlost p hp hdial hloses
    · rcases h.served p hp hdial with ⟨hop, hvacant⟩ | ⟨τ, hτ⟩ | ⟨hreg, hkept⟩
      · exact Or.inl ⟨hop, hmove.vacant p hvacant⟩
      · rcases hmove.running p τ hτ with hrunning | rfl
        · exact Or.inr (Or.inl hrunning)
        · exact absurd ⟨rfl, rfl⟩ hloses
      · rcases hkept with hin | ⟨task, htask, hphase⟩
        · rcases hmove.inbound p hin with hin | rfl
          · exact Or.inr (Or.inr ⟨hmove.registry p hreg, Or.inl hin⟩)
          · exact absurd rfl hloses
        · rcases hmove.connected task p hphase with hphase | rfl
          · exact Or.inr (Or.inr ⟨hmove.registry p hreg, Or.inr ⟨task, htask, hphase⟩⟩)
          · -- the connection that closed is that of the peer's own task, which goes on
            have heq : p = task := by
              by_contra hne
              exact hloses ⟨rfl, hne⟩
            obtain ⟨τ, hτ, hconnected⟩ := Peers.phaseOf_eq_some_iff.mp hphase
            rcases hmove.running task τ ⟨hτ, by rw [hconnected]; exact fun h => nomatch h⟩
              with hrunning | h
            · rw [heq]
              exact Or.inr (Or.inl hrunning)
            · cases h

theorem InRound.reconciled {s : State} (h : InRound self s.peers s.desired []) :
    Reconciled self s := by
  refine ⟨fun p τ hτ => ?_, fun p r hr hdial hconnected => ?_⟩
  · rcases h.task p τ hτ with hr | hop
    · exact hr
    · exact absurd hop List.not_mem_nil
  · rcases h.served p (AList.mem_of_lookup hr) hdial with ⟨⟨addr, hop⟩, -⟩ | ⟨τ, hτ⟩ | ⟨hreg, hkept⟩
    · exact absurd hop List.not_mem_nil
    · rcases h.task p τ hτ with ⟨r', hr', haddr⟩ | hop
      · rw [hr] at hr'
        obtain rfl := Option.some.inj hr'
        exact ⟨τ, hτ, haddr⟩
      · exact absurd hop List.not_mem_nil
    · refine absurd ⟨hreg, ?_⟩ hconnected
      rcases hkept with hin | ⟨task, -, htask⟩
      · exact Or.inl hin
      · exact Or.inr ⟨task, htask⟩

/-- **What the rounds achieve**: in a run whose steps are undisturbed, the tasks are right after
every round. -/
theorem reconciled_of_undisturbed (self : DiscoveryLoop) {s : State}
    (h : Reachable self.step self.Undisturbed initial s) (hround : s.round = some []) :
    Reconciled self s := by
  have hinv : ∀ ops, s.round = some ops → InRound self s.peers s.desired ops := by
    refine h.invariant (P := fun s => ∀ ops, s.round = some ops →
      InRound self s.peers s.desired ops) ?_ ?_
    · intro ops hops
      cases hops
    · intro s l s' _ ih hok hstep ops hops
      cases l with
      | tick expiresAt bucket added removed =>
        obtain ⟨⟨-, hadded, hremoved⟩, heq⟩ := Option.ite_none_right_eq_some.mp hstep
        obtain rfl := Option.some.inj heq
        obtain rfl := Option.some.inj hops
        exact InRound.start hok hadded hremoved
      | next =>
        simp only [step] at hstep
        split at hstep
        · next op rest hrest =>
          obtain rfl := Option.some.inj hstep
          obtain rfl := Option.some.inj hops
          have hop := ih _ hrest
          cases op with
          | addPeer p addr => exact hop.addPeer
          | removePeer p => exact hop.removePeer
        · cases hstep
      | complete =>
        obtain ⟨-, heq⟩ := Option.ite_none_right_eq_some.mp hstep
        obtain rfl := Option.some.inj heq
        cases hops
      | connection event =>
        obtain ⟨peers, hpeers, rfl⟩ := Option.map_eq_some_iff.mp hstep
        exact (ih ops hops).connection hpeers fun p hp hdial hlost =>
          hok ops hops p hp hdial hlost peers hpeers
  exact (hinv [] hround).reconciled

/-- A round that knows no desired peer yet, and has every task in the registry; connections only
change between rounds. -/
def calm (self : DiscoveryLoop) (s : State) : Label → Bool
  | .tick expiresAt bucket _ _ =>
    let desired := self.desiredPeers (self.discovery.register expiresAt bucket)
    (s.peers.outboundTasks.keys.all fun p => decide (p ∈ s.peers.registry)) &&
      desired.keys.all fun p => decide (p ∉ s.peers.outboundTasks) && decide (p ∉ s.peers.registry)
  | .connection _ => s.round.isNone
  | _ => true

theorem undisturbed_of_calm {s : State} {l : Label} (h : self.calm s l = true) :
    self.Undisturbed s l := by
  cases l with
  | tick expiresAt bucket added removed =>
    simp only [calm, Bool.and_eq_true, List.all_eq_true, decide_eq_true_eq, ← AList.mem_keys] at h
    obtain ⟨htasks, hdesired⟩ := h
    refine ⟨fun p τ r hτ hr => ?_, fun p τ hτ _ => htasks p (AList.mem_of_lookup hτ.1),
      fun p hp _ _ => Or.inl (hdesired p hp).symm⟩
    exact absurd (AList.mem_of_lookup hτ.1) (hdesired p (AList.mem_of_lookup hr)).1
  | connection event =>
    intro ops hops
    rw [calm, hops] at h
    cases h
  | _ => trivial

/-- B is discovered and connected to; then it departs, C comes, and the second round ends the task
for B and spawns one for C. -/
theorem reconciled_twice :
    ∃ (self : DiscoveryLoop) (s : State), s.round = some [] ∧
    s.peers.outboundTasks.lookup "B" = none ∧
      (∃ τ, s.peers.Running "C" τ) ∧ Reconciled self s := by
  let t : DateTime := ⟨0, by decide⟩
  let B : Discovery := ⟨"B", "host", "2", true⟩
  let C : Discovery := ⟨"C", "host", "3", true⟩
  let self : DiscoveryLoop := ⟨⟨"A", "host", "1", true⟩, none, ⟨"A", false⟩⟩
  let labels : List Label :=
    [.tick t (Discovery.run "gc" [.register B t]) [.addPeer "B" "host:2"] [], .next, .complete,
      .connection (.lookedUp "B" true), .connection (.handshaken "B" "B" true),
      .tick t (Discovery.run "gc" [.register B t, .deregister B 1 [], .register C t])
        [.addPeer "C" "host:3"]
        [.removePeer "B"], .next, .next]
  have hrun : (replay self.step (fun s l => self.calm s l = true) initial labels).map
      (fun s => (s.round, s.peers.outboundTasks.lookup "B", s.peers.outboundTasks.lookup "C")) =
        some (some [], none, some (spawnOutbound "host:3")) := by decide +kernel
  obtain ⟨s, hs, heq⟩ := Option.map_eq_some_iff.mp hrun
  simp only [Prod.mk.injEq] at heq
  obtain ⟨hround, hgone, htask⟩ := heq
  have hundisturbed : Reachable self.step self.Undisturbed initial s :=
    (Transition.reachable_of_replay labels .start hs).weaken fun _ _ => undisturbed_of_calm
  exact ⟨self, s, hround, hgone, ⟨_, htask, by decide⟩,
    reconciled_of_undisturbed self hundisturbed hround⟩

/-- B is discovered, its connections fail, and it departs: its task goes on, since nothing in the
registry says that there is one. -/
theorem unreconciled_departed :
    ∃ (self : DiscoveryLoop) (s : State), Reachable self.step (fun _ _ => True) initial s ∧
    s.round = some [] ∧
      ¬ Reconciled self s := by
  let t : DateTime := ⟨0, by decide⟩
  let B : Discovery := ⟨"B", "host", "2", true⟩
  let self : DiscoveryLoop := ⟨⟨"A", "host", "1", true⟩, none, ⟨"A", false⟩⟩
  let labels : List Label :=
    [.tick t (Discovery.run "gc" [.register B t]) [.addPeer "B" "host:2"] [], .next, .complete,
      .connection (.lookedUp "B" true), .connection (.failed "B"),
      .tick t (Discovery.run "gc" [.register B t, .deregister B 1 []]) [] []]
  have hrun : (replay self.step (fun _ _ => True) initial labels).map
      (fun s => (s.round, s.peers.outboundTasks.lookup "B", s.desired.lookup "B")) =
        some (some [], some ⟨"host:2", .backoff⟩, none) := by decide +kernel
  obtain ⟨s, hs, heq⟩ := Option.map_eq_some_iff.mp hrun
  simp only [Prod.mk.injEq] at heq
  obtain ⟨hround, htask, hnone⟩ := heq
  refine ⟨self, s, Transition.reachable_of_replay labels .start hs, hround, fun h => ?_⟩
  obtain ⟨r, hr, -⟩ := h.task_desired "B" _ ⟨htask, by decide⟩
  rw [hnone] at hr
  cases hr

end DiscoveryLoop

end ExperimentalCrdt
