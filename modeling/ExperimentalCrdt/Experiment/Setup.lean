import ExperimentalCrdt.Experiment.Topology
import ExperimentalCrdt.Peers.Reconciliation

/-!
# An experiment finds its overlay

`main` and `init_and_run_server` in `experiment/experiment.rs` start many servers in one process.
They share a bucket, over which each finds the peers that `compute_connect_node_ids` allows it, and
a network of channels (`network/simulated.rs`), in which a server is dialed by the address it has
registered.

The discovery loops are those of `DiscoveryLoop`, one for each server that has started. What is sent
over the channels is left out, and so is the shutdown, which ends all servers at once. A round that
fails at the bucket changes nothing, since the server is registered already, and is no step.
-/

namespace ExperimentalCrdt

open Transition (Reachable Halts replay reachable_of_isSome)

/-! ## The network -/

namespace SimulatedNetwork

/-- Who has a channel, by address. -/
abbrev PeerChannels := HashMap String (NodeId × Bool)

/-- `run_connection` up to the writer: the server at the address is connected at once, and without
one the task is over. -/
def runConnection (peerChannels : PeerChannels) (peers : Peers) (task : NodeId) : Option Peers :=
  match peers.outboundTasks.lookup task with
  | some ⟨addr, .lookingUp⟩ =>
    match peerChannels.lookup addr with
    | some (remoteNodeId, remoteGcReplica) =>
      some ((peers.setPhase task (.connected remoteNodeId)).register remoteNodeId remoteGcReplica)
    | none => some (peers.setPhase task .ended)
  | _ => none

/-- The writer goes on while the registry has its handle: until the peer is taken out, or another
task for it has put a handle in the place. -/
def writerLoopEnds (peers : Peers) (task : NodeId) : Option Peers :=
  match peers.phaseOf task with
  | some (.connected remoteNodeId) =>
    if remoteNodeId ∉ peers.registry ∨
        ∃ other ∈ peers.outboundTasks.keys, other ≠ task ∧
          peers.phaseOf other = some (.connected remoteNodeId) then
      some (peers.setPhase task .ended)
    else none
  | _ => none

end SimulatedNetwork

namespace Experiment

/-! ## The servers -/

/-- What a server is started with. -/
structure ServerConfig where
  listenHost : String
  listenPort : String
  nodeName : NodeId
  gcReplica : Bool
deriving DecidableEq

def ServerConfig.nodeAddr (self : ServerConfig) : String :=
  self.listenHost ++ ":" ++ self.listenPort

def serverConfigs (listenHost : String) (numGcReplicas numNormalReplicas : Nat) :
    List ServerConfig :=
  (List.range' 1 numGcReplicas).map
    (fun r => ⟨listenHost, toString (8000 + r), gcServer r, true⟩) ++
    (List.range' 1 numNormalReplicas).map
      (fun r => ⟨listenHost, toString (6000 + r), normalServer r, false⟩)

/-- Of two servers with one address the later one has the channel. -/
def channelsMap (configs : List ServerConfig) : SimulatedNetwork.PeerChannels :=
  AList.ofPairs (configs.map fun c => (c.nodeAddr, c.nodeName, c.gcReplica))

/-- What a server runs its discovery with; no value stands for a panic. -/
def initAndRunServer (numGcReplicas numNormalReplicas : Nat) (config : ServerConfig) :
    Option DiscoveryLoop := do
  let connectNodeIds ←
    if numNormalReplicas = 0 then some none
    else (computeConnectNodeIds config.nodeName config.gcReplica numGcReplicas
        numNormalReplicas).map fun ids =>
      some ids.keys
  some {
    discovery := ⟨config.nodeName, config.listenHost, config.listenPort, config.gcReplica⟩
    connectNodeIds
    connector := { nodeId := config.nodeName, allowBidirectional := true } }

/-! ## The system -/

structure Process where
  loop : DiscoveryLoop
  state : DiscoveryLoop.State

/-- The bucket, and the servers that have started. -/
structure Simulation where
  bucket : Bucket
  processes : HashMap NodeId Process

/-- `others` is what the GC does to the bucket. -/
inductive Label where
  | start (config : ServerConfig) (expiresAt : DateTime)
  | tick (id : NodeId) (expiresAt : DateTime) (added removed : List ReconcileOp)
  | next (id : NodeId)
  | complete (id : NodeId)
  | runConnection (id task : NodeId)
  | writerLoopEnds (id task : NodeId)
  | others (key : String) (present : Bool)

/-- The steps that wait for a timer, or for somebody else. -/
def Label.timed : Label → Bool
  | .start .. | .tick .. | .others .. => true
  | _ => false

namespace Simulation

def initial : Simulation := { bucket := ∅, processes := ∅ }

/-- The process `id` is in another state. -/
def setState (s : Simulation) (id : NodeId) (p : Process) (state : DiscoveryLoop.State) :
    Simulation :=
  { s with processes := s.processes.insert id { p with state } }

/-- A step of the connections of `id`. -/
def connection (s : Simulation) (id : NodeId) (event : Peers → Option Peers) :
    Option Simulation := do
  let p ← s.processes.lookup id
  let peers ← event p.state.peers
  some (s.setState id p { p.state with peers })

/-- A step of the discovery loop of `id`. -/
def discovery (s : Simulation) (id : NodeId) (l : DiscoveryLoop.Label) : Option Simulation := do
  let p ← s.processes.lookup id
  let state ← p.loop.step p.state l
  some (s.setState id p state)

def step (listenHost : String) (numGcReplicas numNormalReplicas : Nat) (s : Simulation) :
    Label → Option Simulation
  | .start config expiresAt =>
    if config ∈ serverConfigs listenHost numGcReplicas numNormalReplicas ∧
      config.nodeName ∉ s.processes then do
      let loop ← initAndRunServer numGcReplicas numNormalReplicas config
      some {
        bucket := loop.discovery.register expiresAt s.bucket
        processes := s.processes.insert config.nodeName ⟨loop, DiscoveryLoop.initial⟩ }
    else none
  | .tick id expiresAt added removed => do
    let p ← s.processes.lookup id
    let s' ← s.discovery id (.tick expiresAt s.bucket added removed)
    some { s' with bucket := p.loop.discovery.register expiresAt s.bucket }
  | .next id => s.discovery id .next
  | .complete id => s.discovery id .complete
  | .runConnection id task =>
    s.connection id fun peers => SimulatedNetwork.runConnection
      (channelsMap (serverConfigs listenHost numGcReplicas numNormalReplicas)) peers task
  | .writerLoopEnds id task =>
    s.connection id fun peers => SimulatedNetwork.writerLoopEnds peers task
  | .others key present =>
    if startsWith key DISCOVERY_NODES_PREFIX then none
    else some { s with
      bucket := if present then s.bucket.putObject key else s.bucket.deleteObject key }

end Simulation

/-! ## The servers by position -/

section servers

variable {host : String} {g n : Nat}

/-- The configuration of a server of the overlay. -/
def configOf (host : String) : Fin g ⊕ Fin n → ServerConfig
  | .inl a => ⟨host, toString (8000 + (a.val + 1)), gcServer (a + 1), true⟩
  | .inr b => ⟨host, toString (6000 + (b.val + 1)), normalServer (b + 1), false⟩

theorem server_eq (v : Fin g ⊕ Fin n) :
    server v = ((configOf host v).nodeName, (configOf host v).gcReplica) := by
  cases v <;> rfl

theorem mem_serverConfigs {c : ServerConfig} :
    c ∈ serverConfigs host g n ↔ ∃ v : Fin g ⊕ Fin n, configOf host v = c := by
  unfold serverConfigs
  rw [List.mem_append, List.mem_map, List.mem_map, exists_mem_range'_iff,
    exists_mem_range'_iff, Sum.exists]
  rfl

theorem nodeAddr_injective (hn : n ≤ 2000) :
    Function.Injective fun v : Fin g ⊕ Fin n => (configOf host v).nodeAddr := by
  have hport : ∀ i j : Nat, host ++ ":" ++ toString i = host ++ ":" ++ toString j → i = j :=
    fun i j h => Text.append_toString_injective _ h
  rintro (a | b) (a' | b') h
  · have := hport _ _ h
    exact congrArg Sum.inl (Fin.ext (by omega))
  · have := hport _ _ h
    omega
  · have := hport _ _ h
    omega
  · have := hport _ _ h
    exact congrArg Sum.inr (Fin.ext (by omega))

/-- **Every server has its own channel**, as long as the ports do not run into each other. -/
theorem lookup_channelsMap (hn : n ≤ 2000) (v : Fin g ⊕ Fin n) :
    (channelsMap (serverConfigs host g n)).lookup (configOf host v).nodeAddr = some (server v) := by
  have hmem : ∀ addr r, (addr, r) ∈ (serverConfigs host g n).map
      (fun c => (c.nodeAddr, c.nodeName, c.gcReplica)) ↔
      ∃ w : Fin g ⊕ Fin n, (configOf host w).nodeAddr = addr ∧ server w = r := by
    intro addr r
    rw [List.mem_map]
    constructor
    · rintro ⟨c, hc, heq⟩
      obtain ⟨w, rfl⟩ := mem_serverConfigs.mp hc
      obtain ⟨rfl, rfl⟩ := Prod.mk.inj heq
      exact ⟨w, rfl, server_eq w⟩
    · rintro ⟨w, rfl, rfl⟩
      exact ⟨configOf host w, mem_serverConfigs.mpr ⟨w, rfl⟩, congrArg _ (server_eq w).symm⟩
  unfold channelsMap
  rw [AList.lookup_ofPairs_iff, hmem]
  · exact ⟨v, rfl, rfl⟩
  · intro addr r r' hr hr'
    obtain ⟨w, hw, rfl⟩ := (hmem _ _).mp hr
    obtain ⟨w', hw', rfl⟩ := (hmem _ _).mp hr'
    rw [nodeAddr_injective hn (hw.trans hw'.symm)]

/-! ## Registrations -/

theorem not_separator_of_notMem {text : List Char} (h : '_' ∉ text) :
    ¬ "__".toList <:+: text ++ ['_'] := by
  intro hin
  have hcount := hin.sublist.count_le '_'
  rw [List.count_append, List.count_eq_zero_of_not_mem h] at hcount
  exact absurd hcount (by decide)

theorem underscore_notMem_toString (i : Nat) : '_' ∉ (toString i).toList := by
  intro h
  have hdigit := Text.isDigit_of_mem_toDigits (n := i) (by rwa [← Nat.toList_repr])
  exact absurd hdigit (by decide)

theorem separableText_append {start : String} (h : '_' ∉ start.toList) (i : Nat) :
    SeparableText (start ++ toString i) := by
  refine not_separator_of_notMem fun hmem => ?_
  rw [String.toList_append] at hmem
  rcases List.mem_append.mp hmem with hmem | hmem
  · exact h hmem
  · exact underscore_notMem_toString i hmem

theorem separableText_nodeName (v : Fin g ⊕ Fin n) : SeparableText (configOf host v).nodeName := by
  cases v with
  | inl a => exact separableText_append (by decide) _
  | inr b => exact separableText_append (by decide) _

/-- What the host must not contain for others to find it. -/
def NoSeparator (host : String) : Prop := ¬ "__".toList <:+: host.toList

instance (host : String) : Decidable (NoSeparator host) := inferInstanceAs (Decidable (¬ _))

theorem separableText_nodeAddr (hhost : NoSeparator host) (v : Fin g ⊕ Fin n) :
    SeparableText (configOf host v).nodeAddr := by
  have hport : ∃ port : Nat, (configOf host v).nodeAddr.toList =
      host.toList ++ ':' :: (toString port).toList := by
    cases v with
    | inl a => exact ⟨8000 + (a.val + 1), by simp [configOf, ServerConfig.nodeAddr]⟩
    | inr b => exact ⟨6000 + (b.val + 1), by simp [configOf, ServerConfig.nodeAddr]⟩
  obtain ⟨port, haddr⟩ := hport
  intro h
  rw [haddr, List.append_assoc, List.cons_append] at h
  rcases Text.infix_append_cons (by decide) h with h | h
  · exact hhost h
  · exact not_separator_of_notMem (underscore_notMem_toString port) h

theorem server_fst (host : String) (v : Fin g ⊕ Fin n) :
    (server v).1 = (configOf host v).nodeName := by
  cases v <;> rfl

theorem nodeName_injective (host : String) :
    Function.Injective fun v : Fin g ⊕ Fin n => (configOf host v).nodeName := by
  intro v w h
  refine server_name_injective ?_
  show (server v).1 = (server w).1
  rw [server_fst host, server_fst host]
  exact h

theorem nodeName_ne_empty (v : Fin g ⊕ Fin n) : (configOf host v).nodeName ≠ "" := by
  intro h
  have hchars := congrArg String.toList h
  cases v <;> simp [configOf, gcServer, normalServer] at hchars

/-- The key under which a server registers at a time. -/
def keyOf (host : String) (v : Fin g ⊕ Fin n) (expiresAt : DateTime) : String :=
  registrationKey (configOf host v).nodeName expiresAt (configOf host v).gcReplica
    (configOf host v).nodeAddr

/-- The server has put its key. -/
def Registered (host : String) (bucket : Bucket) (v : Fin g ⊕ Fin n) : Prop :=
  ∃ t, keyOf host v t ∈ bucket

/-- All registrations are those of the servers. -/
def OwnKeys (host : String) (g n : Nat) (bucket : Bucket) : Prop :=
  ∀ k ∈ bucket, startsWith k DISCOVERY_NODES_PREFIX = true →
    ∃ (v : Fin g ⊕ Fin n) (t : DateTime), k = keyOf host v t

theorem Registered.register {bucket : Bucket} {v : Fin g ⊕ Fin n} (h : Registered host bucket v)
    (d : Discovery) (t : DateTime) : Registered host (d.register t bucket) v := by
  obtain ⟨t', hk⟩ := h
  exact ⟨t', Discovery.mem_register.mpr (Or.inl hk)⟩

theorem parse_keyOf (hhost : NoSeparator host) (v : Fin g ⊕ Fin n) (t : DateTime) :
    parseRegistrationKey (keyOf host v t) = .ok {
      nodeId := (configOf host v).nodeName
      nodeName := (configOf host v).nodeName
      addr := (configOf host v).nodeAddr
      gcReplica := (configOf host v).gcReplica
      expiresAt := t } :=
  parse_registrationKey_iff.mpr ⟨nodeName_ne_empty v, separableText_nodeName v,
    separableText_nodeAddr hhost v⟩

variable {bucket : Bucket}

theorem OwnKeys.of_parse (h : OwnKeys host g n bucket) (hhost : NoSeparator host) {k : String}
    {r : NodeRegistration} (hk : k ∈ bucket) (hparse : parseRegistrationKey k = .ok r) :
    ∃ v : Fin g ⊕ Fin n, Registered host bucket v ∧ r.nodeId = (configOf host v).nodeName ∧
      r.addr = (configOf host v).nodeAddr := by
  have hstarts := (Bucket.mem_listObjectKeys.mp ((mem_listObjectKeys_of_parse hparse).mpr hk)).2
  obtain ⟨v, t, rfl⟩ := h k hk hstarts
  rw [parse_keyOf hhost] at hparse
  obtain rfl := Except.ok.inj hparse
  exact ⟨v, ⟨t, hk⟩, rfl, rfl⟩

/-! ## The peers of a server -/

/-- What the server `v` runs its discovery with: it may connect to its neighbours. -/
structure LoopOf (host : String) (hpos : 0 < g) (v : Fin g ⊕ Fin n) (l : DiscoveryLoop) : Prop where
  discovery : l.discovery =
    ⟨(configOf host v).nodeName, (configOf host v).listenHost, (configOf host v).listenPort,
    (configOf host v).gcReplica⟩
  connector : l.connector.allowBidirectional = true
  allowed : ∀ w, (overlay n hpos).Adj v w ↔
    (configOf host w).nodeName ≠ (configOf host v).nodeName ∧
    ∀ ids, l.connectNodeIds = some ids → (configOf host w).nodeName ∈ ids

theorem loopOf_initAndRunServer (hpos : 0 < g) (hg : g < 2 ^ 64) (hn : n < 2 ^ 64)
    (v : Fin g ⊕ Fin n) :
    ∃ l, initAndRunServer g n (configOf host v) = some l ∧ LoopOf host hpos v l := by
  have hne : ∀ w, (overlay n hpos).Adj v w → (configOf host w).nodeName ≠
      (configOf host v).nodeName :=
    fun w hadj heq => hadj.ne (nodeName_injective host heq.symm)
  by_cases hzero : n = 0
  · refine ⟨_, by rw [initAndRunServer,
      if_pos hzero]; rfl, rfl, rfl, fun w => ⟨fun hadj => ⟨hne w hadj, ?_⟩, ?_⟩⟩
    · intro ids hids
      cases hids
    rintro ⟨hother, -⟩
    subst hzero
    cases v with
    | inr b => exact b.elim0
    | inl a =>
      cases w with
      | inr b => exact b.elim0
      | inl a' =>
        rintro rfl
        exact hother rfl
  · obtain ⟨peers, hpeers, hmem⟩ := computeConnectNodeIds_server hpos hg hn v
    rw [server_eq v] at hpeers
    refine ⟨_, by rw [initAndRunServer, if_neg hzero, hpeers]; rfl, rfl, rfl, fun w => ?_⟩
    constructor
    · intro hadj
      refine ⟨hne w hadj, fun ids hids => ?_⟩
      obtain rfl := Option.some.inj hids
      rw [AList.mem_keys.symm, hmem]
      exact ⟨w, hadj, server_fst host w⟩
    · rintro ⟨-, hids⟩
      obtain ⟨w', hadj, hw'⟩ := (hmem _).mp (AList.mem_keys.mpr (hids _ rfl))
      rw [server_fst host] at hw'
      obtain rfl := nodeName_injective host hw'
      exact hadj

theorem mem_listLivePeers {self : DiscoveryLoop} {r : NodeRegistration} :
    r ∈ self.listLivePeers bucket ↔
    r ∈ listLiveRegistrations bucket ∧ r.nodeId ≠ self.discovery.nodeId ∧
      ∀ ids, self.connectNodeIds = some ids → r.nodeId ∈ ids := by
  unfold DiscoveryLoop.listLivePeers
  cases self.connectNodeIds with
  | none => simp
  | some ids =>
    simp only [List.mem_filter, decide_eq_true_eq, Option.some.injEq, forall_eq', and_assoc]

section desired

variable {hpos : 0 < g} {v : Fin g ⊕ Fin n} {l : DiscoveryLoop}

theorem LoopOf.desired (hl : LoopOf host hpos v l) (hhost : NoSeparator host)
    (hb : OwnKeys host g n bucket) {p : NodeId} {r : NodeRegistration}
    (h : (l.desiredPeers bucket).lookup p = some r) :
    ∃ w, (overlay n hpos).Adj v w ∧ Registered host bucket w ∧ p = (configOf host w).nodeName ∧
      r.addr = (configOf host w).nodeAddr := by
  rcases AList.lookup_foldl_insert_some h with hmem | hempty
  · obtain ⟨r', hr', heq⟩ := List.mem_map.mp hmem
    obtain ⟨rfl, rfl⟩ := Prod.mk.inj heq
    obtain ⟨hlive, hother, hids⟩ := mem_listLivePeers.mp hr'
    obtain ⟨k, hk, ⟨hparse, -⟩, -⟩ :=
      lookup_registrationsByNode_iff.mp (mem_listLiveRegistrations.mp hlive)
    obtain ⟨w, hw, hid, haddr⟩ := hb.of_parse hhost hk hparse
    rw [hl.discovery] at hother
    refine ⟨w, (hl.allowed w).mpr ?_, hw, hid, haddr⟩
    rw [← hid]
    exact ⟨hother, hids⟩
  · cases hempty

theorem LoopOf.mem_desired (hl : LoopOf host hpos v l) (hhost : NoSeparator host)
    {w : Fin g ⊕ Fin n} (hadj : (overlay n hpos).Adj v w) (hw : Registered host bucket w) :
    (configOf host w).nodeName ∈ l.desiredPeers bucket := by
  obtain ⟨t, hk⟩ := hw
  obtain ⟨r, hr⟩ :=
    AList.mem_iff_lookup.mp (mem_registrationsByNode_of_parse hk (parse_keyOf hhost w t))
  obtain ⟨-, -, ⟨-, hid⟩, -⟩ := lookup_registrationsByNode_iff.mp hr
  obtain ⟨hother, hids⟩ := (hl.allowed w).mp hadj
  refine AList.mem_foldl_insert.mpr
    (Or.inl ⟨r, List.mem_map.mpr ⟨r, mem_listLivePeers.mpr ⟨?_, ?_, ?_⟩, ?_⟩⟩)
  · rw [mem_listLiveRegistrations, hid]
    exact hr
  · rw [hl.discovery, hid]
    exact hother
  · rw [hid]
    exact hids
  · rw [hid]

theorem LoopOf.key (hl : LoopOf host hpos v l) (t : DateTime) :
    registrationKey l.discovery.nodeId t l.discovery.gcReplica l.discovery.listenAddr =
      keyOf host v t := by
  rw [hl.discovery]
  rfl

theorem startsWith_keyOf (v : Fin g ⊕ Fin n) (t : DateTime) :
    startsWith (keyOf host v t) DISCOVERY_NODES_PREFIX = true := by
  rw [startsWith_iff]
  unfold keyOf
  rw [toList_registrationKey, keyText, List.append_assoc]
  exact List.prefix_append _ _

theorem startsWith_nodes {k : String} {id : NodeId}
    (h : startsWith k (registrationKeyPrefix id) = true) :
    startsWith k DISCOVERY_NODES_PREFIX = true := by
  rw [startsWith_iff] at h ⊢
  refine List.IsPrefix.trans ?_ h
  rw [registrationKeyPrefix, String.toList_append, String.toList_append, List.append_assoc]
  exact List.prefix_append _ _

theorem LoopOf.ownKeys (hl : LoopOf host hpos v l) (hb : OwnKeys host g n bucket) (t : DateTime) :
    OwnKeys host g n (l.discovery.register t bucket) := by
  intro k hk hstarts
  rcases Discovery.mem_register.mp hk with hk | ⟨rfl, -⟩
  · exact hb k hk hstarts
  · exact ⟨v, t, hl.key t⟩

theorem LoopOf.registered (hl : LoopOf host hpos v l) (hb : OwnKeys host g n bucket)
    (t : DateTime) :
    Registered host (l.discovery.register t bucket) v := by
  by_cases hnone : ∀ own ∈ bucket, startsWith own (registrationKeyPrefix l.discovery.nodeId) = false
  · exact ⟨t, Discovery.mem_register.mpr (Or.inr ⟨(hl.key t).symm, hnone⟩)⟩
  · push Not at hnone
    obtain ⟨own, hown, hstarts⟩ := hnone
    rw [Bool.ne_false_iff] at hstarts
    obtain ⟨w, t', rfl⟩ := hb own hown (startsWith_nodes hstarts)
    rw [hl.discovery] at hstarts
    have hname :=
      (startsWith_registrationKey_iff (separableText_nodeName v) (separableText_nodeName w)).mp
        hstarts
    obtain rfl := nodeName_injective host hname
    exact ⟨t', Discovery.mem_register.mpr (Or.inl hown)⟩

end desired

/-! ## What holds of a server -/

section process

variable {hpos : 0 < g} {v : Fin g ⊕ Fin n} {bucket bucket' : Bucket} {st : DiscoveryLoop.State}
  {p : Process}

/-- What a server has to do with another one, it has to do with a neighbour that has registered. -/
def Neighbour (host : String) (hpos : 0 < g) (v : Fin g ⊕ Fin n) (bucket : Bucket) (nodeId : NodeId)
    (addr : String) :
    Prop :=
  ∃ w, (overlay n hpos).Adj v w ∧ Registered host bucket w ∧ nodeId = (configOf host w).nodeName ∧
    addr = (configOf host w).nodeAddr

theorem Neighbour.mono (hmono : ∀ w : Fin g ⊕ Fin n, Registered host bucket w →
    Registered host bucket' w)
    {nodeId : NodeId} {addr : String} (h : Neighbour host hpos v bucket nodeId addr) :
    Neighbour host hpos v bucket' nodeId addr := by
  obtain ⟨w, hadj, hw, hid, haddr⟩ := h
  exact ⟨w, hadj, hmono w hw, hid, haddr⟩

/-- The tasks are for neighbours and waiting or connected, the registry has the connected ones in
their roles, and no round takes a peer away. -/
structure Sound (host : String) (hpos : 0 < g) (v : Fin g ⊕ Fin n) (bucket : Bucket)
    (st : DiscoveryLoop.State) :
    Prop where
  task : ∀ y τ, st.peers.outboundTasks.lookup y = some τ →
    Neighbour host hpos v bucket y τ.address ∧ (τ.phase = .lookingUp ∨ τ.phase = .connected y)
  registry : ∀ y r, st.peers.registry.lookup y = some r ↔
    st.peers.phaseOf y = some (.connected y) ∧ ∃ w : Fin g ⊕ Fin n, server w = (y, r)
  round : ∀ ops, st.round = some ops → ∀ op ∈ ops, ∃ y addr, op = .addPeer y addr ∧
    Neighbour host hpos v bucket y addr

theorem Sound.mono (hmono : ∀ w : Fin g ⊕ Fin n, Registered host bucket w →
    Registered host bucket' w)
    (h : Sound host hpos v bucket st) : Sound host hpos v bucket' st where
  task y τ hτ := ⟨(h.task y τ hτ).1.mono hmono, (h.task y τ hτ).2⟩
  registry := h.registry
  round ops hops op hop := by
    obtain ⟨y, addr, heq, hy⟩ := h.round ops hops op hop
    exact ⟨y, addr, heq, hy.mono hmono⟩

theorem sound_initial : Sound host hpos v bucket DiscoveryLoop.initial where
  task _ _ hτ := nomatch hτ
  registry _ _ := ⟨nofun, fun h => nomatch h.1⟩
  round _ hops := nomatch hops

theorem Sound.mem_tasks_of_mem_registry (h : Sound host hpos v bucket st) {y : NodeId}
    (hy : y ∈ st.peers.registry) :
    ∃ τ, st.peers.outboundTasks.lookup y = some τ := by
  obtain ⟨r, hr⟩ := AList.mem_iff_lookup.mp hy
  obtain ⟨τ, hτ, -⟩ := Peers.phaseOf_eq_some_iff.mp ((h.registry y r).mp hr).1
  exact ⟨τ, hτ⟩

/-- All neighbours have a task, or get one in the round. -/
def Covered (host : String) (hpos : 0 < g) (v : Fin g ⊕ Fin n) (st : DiscoveryLoop.State) : Prop :=
  ∀ w, (overlay n hpos).Adj v w → (configOf host w).nodeName ∈ st.peers.outboundTasks ∨
    ∃ ops addr, st.round = some ops ∧ .addPeer (configOf host w).nodeName addr ∈ ops

/-- Connected tasks count less than waiting ones. -/
def phaseWork : TaskPhase → Nat
  | .lookingUp => 2
  | .connected _ => 1
  | _ => 0

/-- What is left to do until the next timer. -/
def work (st : DiscoveryLoop.State) : Nat :=
  st.peers.outboundTasks.sumBy (fun _ τ => phaseWork τ.phase) + st.round.elim 0 fun ops =>
    1 + 3 * ops.length

/-- A step of one server, with what it leaves in the bucket. -/
inductive Move (channels : SimulatedNetwork.PeerChannels) (bucket : Bucket) (p : Process) :
    Bool → DiscoveryLoop.State → Bucket → Prop
  | tick {t added removed st'} (h : p.loop.step p.state (.tick t bucket added removed) = some st') :
    Move channels bucket p true st' (p.loop.discovery.register t bucket)
  | next {st'} (h : p.loop.step p.state .next = some st') : Move channels bucket p false st' bucket
  | complete {st'} (h : p.loop.step p.state .complete = some st') :
    Move channels bucket p false st' bucket
  | runConnection {task peers}
    (h : SimulatedNetwork.runConnection channels p.state.peers task = some peers) :
    Move channels bucket p false { p.state with peers } bucket
  | writerLoopEnds {task peers}
    (h : SimulatedNetwork.writerLoopEnds p.state.peers task = some peers) :
    Move channels bucket p false { p.state with peers } bucket

/-! ### Connections -/

theorem runConnection_eq_some {channels : SimulatedNetwork.PeerChannels} {peers peers' : Peers}
    {task : NodeId} (h : SimulatedNetwork.runConnection channels peers task = some peers') :
    ∃ addr, peers.outboundTasks.lookup task = some ⟨addr, .lookingUp⟩ ∧
      ((∃ remote gc, channels.lookup addr = some (remote, gc) ∧
        peers' = (peers.setPhase task (.connected remote)).register remote gc) ∨
      channels.lookup addr = none ∧ peers' = peers.setPhase task .ended) := by
  unfold SimulatedNetwork.runConnection at h
  split at h
  · next addr hτ =>
    refine ⟨addr, hτ, ?_⟩
    split at h
    · next remote gc hchannel => exact Or.inl ⟨remote, gc, hchannel, (Option.some.inj h).symm⟩
    · next hchannel => exact Or.inr ⟨hchannel, (Option.some.inj h).symm⟩
  · cases h

theorem setPhase_outboundTasks {peers : Peers} {task : NodeId} {τ : OutboundTask}
    (hτ : peers.outboundTasks.lookup task = some τ) (phase : TaskPhase) :
    (peers.setPhase task phase).outboundTasks = peers.outboundTasks.insert task
      { τ with phase } := by
  unfold Peers.setPhase
  rw [hτ]

theorem Sound.writerLoopEnds (h : Sound host hpos v bucket st) (task : NodeId) :
    SimulatedNetwork.writerLoopEnds st.peers task = none := by
  unfold SimulatedNetwork.writerLoopEnds
  split
  · next remote hphase =>
    rw [if_neg]
    obtain ⟨τ, hτ, hconnected⟩ := Peers.phaseOf_eq_some_iff.mp hphase
    obtain ⟨⟨w, -, -, hid, -⟩, hcases⟩ := h.task task τ hτ
    obtain rfl : remote = task := by
      rcases hcases with hwaiting | hself
      · rw [hconnected] at hwaiting
        cases hwaiting
      · exact TaskPhase.connected.inj (hconnected.symm.trans hself)
    rintro (hout | ⟨other, -, hne, hother⟩)
    · refine hout
        (AList.mem_of_lookup ((h.registry remote (configOf host w).gcReplica).mpr ⟨hphase, w, ?_⟩))
      rw [server_eq w, ← hid]
    · obtain ⟨τ', hτ', hconnected'⟩ := Peers.phaseOf_eq_some_iff.mp hother
      rcases (h.task other τ' hτ').2 with hwaiting | hself
      · rw [hconnected'] at hwaiting
        cases hwaiting
      · exact hne (TaskPhase.connected.inj (hself.symm.trans hconnected'))
  · rfl

theorem Sound.runConnection (hn : n ≤ 2000) (h : Sound host hpos v bucket st) {task : NodeId}
    {peers : Peers}
    (hrun : SimulatedNetwork.runConnection (channelsMap (serverConfigs host g n)) st.peers task =
      some peers) :
    ∃ addr, st.peers.outboundTasks.lookup task = some ⟨addr, .lookingUp⟩ ∧
      peers.outboundTasks = st.peers.outboundTasks.insert task ⟨addr, .connected task⟩ ∧
      Sound host hpos v bucket { st with peers } := by
  obtain ⟨addr, hτ, hcases⟩ := runConnection_eq_some hrun
  obtain ⟨⟨w, hadj, hw, hid, haddr⟩, -⟩ := h.task task _ hτ
  have hchannel : (channelsMap (serverConfigs host g n)).lookup addr = some (server w) := by
    obtain rfl : addr = (configOf host w).nodeAddr := haddr
    exact lookup_channelsMap hn w
  rcases hcases with ⟨remote, gc, hfound, rfl⟩ | ⟨hnone, -⟩
  swap
  · rw [hchannel] at hnone
    cases hnone
  have hserver : server w = (remote, gc) := Option.some.inj (hchannel.symm.trans hfound)
  obtain rfl : remote = task := by
    rw [hid, ← server_fst host w, hserver]
  have htasks := setPhase_outboundTasks hτ (.connected remote)
  refine ⟨addr, hτ, htasks, fun y τ hy => ?_, fun y r => ?_, h.round⟩
  · have hy' : (st.peers.outboundTasks.insert remote ⟨addr, .connected remote⟩).lookup y = some τ :=
      htasks ▸ hy
    rw [AList.lookup_insert_eq] at hy'
    split at hy'
    · next heq =>
      obtain rfl := Option.some.inj hy'
      rw [heq]
      exact ⟨⟨w, hadj, hw, hid, haddr⟩, Or.inr rfl⟩
    · exact h.task y τ hy'
  · have hphase :
        Peers.phaseOf ((st.peers.setPhase remote (.connected remote)).register remote gc) y =
        if y = remote then some (.connected remote) else st.peers.phaseOf y := by
      show ((st.peers.setPhase remote (.connected remote)).outboundTasks.lookup y).map _ = _
      rw [htasks, AList.lookup_insert_eq]
      split <;> rfl
    show ((st.peers.setPhase remote (.connected remote)).registry.insert remote gc).lookup y =
      some r ↔
      Peers.phaseOf _ y = _ ∧ _
    rw [Peers.setPhase_registry, AList.lookup_insert_eq, hphase]
    split
    · next heq =>
      subst heq
      constructor
      · intro hr
        obtain rfl := Option.some.inj hr
        exact ⟨rfl, w, hserver⟩
      · rintro ⟨-, w', hw'⟩
        have hsame : w' = w := server_name_injective (by
          show (server w').1 = (server w).1
          rw [hw', hserver])
        rw [hsame, hserver] at hw'
        exact congrArg some (Prod.mk.inj hw').2
    · exact h.registry y r

/-! ### Rounds -/

theorem step_next (hl : LoopOf host hpos v p.loop) (h : Sound host hpos v bucket p.state)
    (hstep : p.loop.step p.state .next = some st) :
    ∃ y addr ops, p.state.round = some (.addPeer y addr :: ops) ∧
      Neighbour host hpos v bucket y addr ∧ st.round = some ops ∧
      st.peers.registry = p.state.peers.registry ∧
      ((y ∈ p.state.peers.outboundTasks ∧ st.peers.outboundTasks = p.state.peers.outboundTasks) ∨
        y ∉ p.state.peers.outboundTasks ∧
          st.peers.outboundTasks = p.state.peers.outboundTasks.insert y ⟨addr, .lookingUp⟩) := by
  simp only [DiscoveryLoop.step] at hstep
  split at hstep
  · next op ops hround =>
    obtain rfl := Option.some.inj hstep
    obtain ⟨y, addr, rfl, hy⟩ := h.round _ hround op List.mem_cons_self
    refine ⟨y, addr, ops, hround, hy, rfl, ?_, ?_⟩
    · simp only [DiscoveryLoop.reconcile, PeerConnector.addPeer, hl.connector,
        Bool.not_true, Bool.false_and,
        Bool.false_eq_true, if_false]
      split <;> rfl
    · simp only [DiscoveryLoop.reconcile, PeerConnector.addPeer, hl.connector,
        Bool.not_true, Bool.false_and,
        Bool.false_eq_true, if_false]
      split
      · next hmem => exact Or.inl ⟨hmem, rfl⟩
      · next hmem => exact Or.inr ⟨hmem, rfl⟩
  · cases hstep

theorem Sound.next (hl : LoopOf host hpos v p.loop) (h : Sound host hpos v bucket p.state)
    (hstep : p.loop.step p.state .next = some st) : Sound host hpos v bucket st := by
  obtain ⟨y, addr, ops, hround, hy, hrest, hregistry, hcases⟩ := step_next hl h hstep
  have hround' : ∀ ops', st.round = some ops' → ∀ op ∈ ops', ∃ y addr, op = .addPeer y addr ∧
      Neighbour host hpos v bucket y addr := by
    intro ops' hops' op hop
    obtain rfl := Option.some.inj (hrest.symm.trans hops')
    exact h.round _ hround op (List.mem_cons_of_mem _ hop)
  rcases hcases with ⟨-, htasks⟩ | ⟨hnew, htasks⟩
  · refine ⟨fun z τ hτ => h.task z τ (htasks ▸ hτ), fun z r => ?_, hround'⟩
    rw [hregistry, Peers.phaseOf, htasks]
    exact h.registry z r
  · refine ⟨fun z τ hτ => ?_, fun z r => ?_, hround'⟩
    · rw [htasks, AList.lookup_insert_eq] at hτ
      split at hτ
      · next heq =>
        obtain rfl := Option.some.inj hτ
        rw [heq]
        exact ⟨hy, Or.inl rfl⟩
      · exact h.task z τ hτ
    · rw [hregistry, Peers.phaseOf, htasks, AList.lookup_insert_eq, h.registry z r, Peers.phaseOf]
      split
      · next heq =>
        rw [heq, AList.lookup_eq_none.mpr hnew]
        simp
      · rfl

theorem Sound.tick (hl : LoopOf host hpos v p.loop) (hhost : NoSeparator host)
    (hb : OwnKeys host g n bucket) (h : Sound host hpos v bucket p.state) {t : DateTime}
    {added removed : List ReconcileOp}
    (hstep : p.loop.step p.state (.tick t bucket added removed) = some st) :
    p.state.round = none ∧ st.peers = p.state.peers ∧ st.round = some (added ++ removed) ∧
      added.Perm (DiscoveryLoop.toAdd (p.loop.desiredPeers (p.loop.discovery.register t bucket))
        p.state.peers.registry) ∧
      Sound host hpos v (p.loop.discovery.register t bucket) st := by
  obtain ⟨⟨hnone, hadded, hremoved⟩, heq⟩ := Option.ite_none_right_eq_some.mp hstep
  obtain rfl := Option.some.inj heq
  have hb' := hl.ownKeys hb t
  have h' := h.mono fun w hw => hw.register p.loop.discovery t
  refine ⟨hnone, rfl, rfl, hadded, h'.task, h'.registry, fun ops hops op hop => ?_⟩
  obtain rfl := Option.some.inj hops
  rcases List.mem_append.mp hop with hop | hop
  · obtain ⟨y, r, hy, -, rfl⟩ := DiscoveryLoop.mem_toAdd.mp (hadded.subset hop)
    exact ⟨y, r.addr, rfl, hl.desired hhost hb' hy⟩
  · -- whoever is in the registry is desired
    obtain ⟨y, hy, hnot, rfl⟩ := DiscoveryLoop.mem_toRemove.mp (hremoved.subset hop)
    obtain ⟨τ, hτ⟩ := h.mem_tasks_of_mem_registry hy
    obtain ⟨⟨w, hadj, hw, rfl, -⟩, -⟩ := h'.task y τ hτ
    exact absurd (hl.mem_desired hhost hadj hw) hnot

/-! ### Every step -/

theorem Covered.of_tasks {st' : DiscoveryLoop.State} (h : Covered host hpos v st)
    (hround : st.round.getD [] = [])
    (htasks : ∀ y ∈ st.peers.outboundTasks, y ∈ st'.peers.outboundTasks) :
    Covered host hpos v st' := by
  intro w hadj
  rcases h w hadj with hmem | ⟨ops, addr, hops, hop⟩
  · exact Or.inl (htasks _ hmem)
  · rw [hops, Option.getD_some] at hround
    rw [hround] at hop
    exact absurd hop List.not_mem_nil

theorem Covered.next (hl : LoopOf host hpos v p.loop) (h : Sound host hpos v bucket p.state)
    (hc : Covered host hpos v p.state) (hstep : p.loop.step p.state .next = some st) :
    Covered host hpos v st := by
  obtain ⟨y, addr, ops, hround, -, hrest, -, hcases⟩ := step_next hl h hstep
  have hkept : ∀ z, z = y ∨ z ∈ p.state.peers.outboundTasks → z ∈ st.peers.outboundTasks := by
    rintro z hz
    rcases hcases with ⟨hmem, htasks⟩ | ⟨-, htasks⟩
    · rw [htasks]
      rcases hz with rfl | hz
      · exact hmem
      · exact hz
    · rw [htasks]
      exact (AList.mem_insert _).mpr hz
  intro w hadj
  rcases hc w hadj with hmem | ⟨ops', addr', hops', hop⟩
  · exact Or.inl (hkept _ (Or.inr hmem))
  · obtain rfl := Option.some.inj (hround.symm.trans hops')
    rcases List.mem_cons.mp hop with heq | hop
    · exact Or.inl (hkept _ (Or.inl (ReconcileOp.addPeer.inj heq).1))
    · exact Or.inr ⟨ops, addr', hrest, hop⟩

theorem work_next (hl : LoopOf host hpos v p.loop) (h : Sound host hpos v bucket p.state)
    (hstep : p.loop.step p.state .next = some st) : work st < work p.state := by
  obtain ⟨y, addr, ops, hround, -, hrest, -, hcases⟩ := step_next hl h hstep
  unfold work
  rw [hround, hrest, Option.elim_some, Option.elim_some, List.length_cons]
  rcases hcases with ⟨-, htasks⟩ | ⟨hnew, htasks⟩
  · rw [htasks]
    omega
  · rw [htasks, AList.sumBy_insert_new _ hnew]
    have htwo : phaseWork TaskPhase.lookingUp = 2 := rfl
    dsimp only
    omega

theorem work_runConnection {task : NodeId} {peers : Peers} {addr : String}
    (hτ : st.peers.outboundTasks.lookup task = some ⟨addr, .lookingUp⟩)
    (htasks : peers.outboundTasks = st.peers.outboundTasks.insert task ⟨addr, .connected task⟩) :
    work { st with peers } < work st := by
  have hsum := AList.sumBy_insert (fun _ (τ : OutboundTask) => phaseWork τ.phase) hτ
    ⟨addr, .connected task⟩
  have htwo : phaseWork TaskPhase.lookingUp = 2 := rfl
  have hone : phaseWork (TaskPhase.connected task) = 1 := rfl
  unfold work
  dsimp only at hsum ⊢
  rw [htasks]
  omega

/-- What a step of a server keeps, and that it brings the server closer to rest. -/
theorem Move.sound (hl : LoopOf host hpos v p.loop) (hhost : NoSeparator host) (hn : n ≤ 2000)
    (hb : OwnKeys host g n bucket) (h : Sound host hpos v bucket p.state) {timed : Bool}
    (hm : Move (channelsMap (serverConfigs host g n)) bucket p timed st bucket') :
    OwnKeys host g n bucket' ∧
    (∀ w : Fin g ⊕ Fin n, Registered host bucket w → Registered host bucket' w) ∧
      Sound host hpos v bucket' st ∧ (Covered host hpos v p.state → Covered host hpos v st) ∧
      (timed = false → work st < work p.state) := by
  cases hm with
  | tick hstep =>
    obtain ⟨hnone, hpeers, -, -, hsound⟩ := h.tick hl hhost hb hstep
    refine ⟨hl.ownKeys hb _, fun w hw => hw.register _ _, hsound,
      fun hc => hc.of_tasks ?_ ?_, nofun⟩
    · rw [hnone]
      rfl
    · rw [hpeers]
      exact fun y hy => hy
  | next hstep =>
    exact ⟨hb, fun w hw => hw, h.next hl hstep, fun hc => hc.next hl h hstep,
      fun _ => work_next hl h hstep⟩
  | complete hstep =>
    obtain ⟨hround, heq⟩ := Option.ite_none_right_eq_some.mp hstep
    obtain rfl := Option.some.inj heq
    refine ⟨hb, fun w hw => hw, ⟨h.task, h.registry, nofun⟩,
      fun hc => hc.of_tasks ?_ fun y hy => hy, fun _ => ?_⟩
    · rw [hround]
      rfl
    · unfold work
      rw [hround]
      exact Nat.lt_succ_self _
  | runConnection hrun =>
    obtain ⟨addr, hτ, htasks, hsound⟩ := h.runConnection hn hrun
    refine ⟨hb, fun w hw => hw, hsound, fun hc w hadj => ?_, fun _ => work_runConnection hτ htasks⟩
    refine (hc w hadj).imp_left fun hmem => ?_
    dsimp only
    rw [htasks]
    exact (AList.mem_insert _).mpr (Or.inr hmem)
  | writerLoopEnds hend =>
    rw [h.writerLoopEnds] at hend
    cases hend

end process

/-! ## The system -/

section simulation

variable {hpos : 0 < g} {s s' : Simulation} {l : Label} {x : NodeId} {p : Process}

theorem tick_eq_some {t : DateTime} {added removed : List ReconcileOp}
    (h : Simulation.step host g n s (.tick x t added removed) = some s') :
    ∃ p st, s.processes.lookup x = some p ∧
    p.loop.step p.state (.tick t s.bucket added removed) = some st ∧
      s' = ⟨p.loop.discovery.register t s.bucket, s.processes.insert x { p with state := st }⟩ := by
  obtain ⟨p, hp, hrest⟩ := Option.bind_eq_some_iff.mp h
  obtain ⟨u, hu, heq⟩ := Option.bind_eq_some_iff.mp hrest
  obtain ⟨p', hp', hrest'⟩ := Option.bind_eq_some_iff.mp hu
  obtain ⟨st, hst, hu'⟩ := Option.bind_eq_some_iff.mp hrest'
  obtain rfl := Option.some.inj (hp.symm.trans hp')
  obtain rfl := Option.some.inj hu'
  exact ⟨p, st, hp, hst, (Option.some.inj heq).symm⟩

theorem step_cases (h : Simulation.step host g n s l = some s') :
    (∃ config t loop, config ∈ serverConfigs host g n ∧ config.nodeName ∉ s.processes ∧
      initAndRunServer g n config = some loop ∧ l.timed = true ∧
      s' = ⟨loop.discovery.register t s.bucket,
        s.processes.insert config.nodeName ⟨loop, DiscoveryLoop.initial⟩⟩) ∨
    (∃ id p st bucket, s.processes.lookup id = some p ∧
      Move (channelsMap (serverConfigs host g n)) s.bucket p l.timed st bucket ∧
      s' = ⟨bucket, s.processes.insert id { p with state := st }⟩) ∨
    ∃ key present, startsWith key DISCOVERY_NODES_PREFIX = false ∧ l.timed = true ∧
      s' = { s with
        bucket := if present = true then s.bucket.putObject key
          else s.bucket.deleteObject key } := by
  cases l with
  | start config t =>
    obtain ⟨⟨hconfig, hnew⟩, hrest⟩ := Option.ite_none_right_eq_some.mp h
    obtain ⟨loop, hloop, heq⟩ := Option.bind_eq_some_iff.mp hrest
    exact Or.inl ⟨config, t, loop, hconfig, hnew, hloop, rfl, (Option.some.inj heq).symm⟩
  | tick id t added removed =>
    obtain ⟨p, st, hp, hst, hs'⟩ := tick_eq_some h
    exact Or.inr (Or.inl ⟨id, p, st, _, hp, .tick hst, hs'⟩)
  | next id =>
    obtain ⟨p, hp, hrest⟩ := Option.bind_eq_some_iff.mp h
    obtain ⟨st, hst, heq⟩ := Option.bind_eq_some_iff.mp hrest
    exact Or.inr (Or.inl ⟨id, p, st, _, hp, .next hst, (Option.some.inj heq).symm⟩)
  | complete id =>
    obtain ⟨p, hp, hrest⟩ := Option.bind_eq_some_iff.mp h
    obtain ⟨st, hst, heq⟩ := Option.bind_eq_some_iff.mp hrest
    exact Or.inr (Or.inl ⟨id, p, st, _, hp, .complete hst, (Option.some.inj heq).symm⟩)
  | runConnection id task =>
    obtain ⟨p, hp, hrest⟩ := Option.bind_eq_some_iff.mp h
    obtain ⟨peers, hpeers, heq⟩ := Option.bind_eq_some_iff.mp hrest
    exact Or.inr (Or.inl ⟨id, p, _, _, hp, .runConnection hpeers, (Option.some.inj heq).symm⟩)
  | writerLoopEnds id task =>
    obtain ⟨p, hp, hrest⟩ := Option.bind_eq_some_iff.mp h
    obtain ⟨peers, hpeers, heq⟩ := Option.bind_eq_some_iff.mp hrest
    exact Or.inr (Or.inl ⟨id, p, _, _, hp, .writerLoopEnds hpeers, (Option.some.inj heq).symm⟩)
  | others key present =>
    simp only [Simulation.step] at h
    split at h
    · cases h
    · next hkey =>
      exact Or.inr (Or.inr ⟨key, present, Bool.not_eq_true _ ▸ hkey, rfl, (Option.some.inj h).symm⟩)

/-- Every server that has started is registered, and sound. -/
structure Inv (host : String) (hpos : 0 < g) (n : Nat) (s : Simulation) : Prop where
  own : OwnKeys host g n s.bucket
  process : ∀ x p, s.processes.lookup x = some p →
    ∃ v : Fin g ⊕ Fin n, x = (configOf host v).nodeName ∧
    LoopOf host hpos v p.loop ∧ Registered host s.bucket v ∧ Sound host hpos v s.bucket p.state

theorem Inv.insert (hi : Inv host hpos n s) {bucket : Bucket} (hown : OwnKeys host g n bucket)
    (hmono : ∀ w : Fin g ⊕ Fin n, Registered host s.bucket w → Registered host bucket w)
    {v : Fin g ⊕ Fin n} (hl : LoopOf host hpos v p.loop) (hv : Registered host bucket v)
    (hsound : Sound host hpos v bucket p.state) :
    Inv host hpos n ⟨bucket, s.processes.insert (configOf host v).nodeName p⟩ := by
  refine ⟨hown, fun x q hq => ?_⟩
  rw [AList.lookup_insert_eq] at hq
  split at hq
  · next heq =>
    obtain rfl := Option.some.inj hq
    exact ⟨v, heq, hl, hv, hsound⟩
  · obtain ⟨w, hx, hlw, hw, hsoundw⟩ := hi.process x q hq
    exact ⟨w, hx, hlw, hmono w hw, hsoundw.mono hmono⟩

/-- The servers that were there are there, and what they cover they go on to cover. -/
def Keeps (host : String) (hpos : 0 < g) (n : Nat) (s s' : Simulation) : Prop :=
  ∀ (v : Fin g ⊕ Fin n) (p : Process), s.processes.lookup (configOf host v).nodeName = some p →
    ∃ p',
    s'.processes.lookup (configOf host v).nodeName = some p' ∧
      (Covered host hpos v p.state → Covered host hpos v p'.state)

theorem Inv.start (hg : g < 2 ^ 64) (hn : n < 2 ^ 64) (hi : Inv host hpos n s)
    {config : ServerConfig} {loop : DiscoveryLoop} (hconfig : config ∈ serverConfigs host g n)
    (hnew : config.nodeName ∉ s.processes) (hloop : initAndRunServer g n config = some loop)
    (t : DateTime)
    (hs' : s' = ⟨loop.discovery.register t s.bucket,
      s.processes.insert config.nodeName ⟨loop, DiscoveryLoop.initial⟩⟩) :
    Inv host hpos n s' ∧ Keeps host hpos n s s' := by
  obtain ⟨v, rfl⟩ := mem_serverConfigs.mp hconfig
  obtain ⟨loop', hloop', hl⟩ : ∃ l, initAndRunServer g n (configOf host v) = some l ∧
      LoopOf host hpos v l :=
    loopOf_initAndRunServer hpos hg hn v
  obtain rfl := Option.some.inj (hloop.symm.trans hloop')
  subst hs'
  refine ⟨hi.insert (hl.ownKeys hi.own t) (fun w hw => hw.register loop.discovery t) hl
    (hl.registered hi.own t)
    sound_initial, fun w p hp => ⟨p, ?_, id⟩⟩
  rw [AList.lookup_insert_ne]
  · exact hp
  · intro heq
    exact hnew (heq ▸ AList.mem_of_lookup hp)

theorem Inv.move (hn : n ≤ 2000) (hhost : NoSeparator host) (hi : Inv host hpos n s) {id : NodeId}
    {timed : Bool} {st : DiscoveryLoop.State} {bucket : Bucket}
    (hp : s.processes.lookup id = some p)
    (hm : Move (channelsMap (serverConfigs host g n)) s.bucket p timed st bucket)
    (hs' : s' = ⟨bucket, s.processes.insert id { p with state := st }⟩) :
    Inv host hpos n s' ∧ Keeps host hpos n s s' ∧ (timed = false → work st < work p.state) := by
  obtain ⟨v, rfl, hl, hv, hsound⟩ := hi.process id p hp
  obtain ⟨hown, hmono, hsound', hcovered, hwork⟩ := hm.sound hl hhost hn hi.own hsound
  subst hs'
  refine ⟨hi.insert hown hmono hl (hmono v hv) hsound', fun w q hq => ?_, hwork⟩
  by_cases heq : w = v
  · subst heq
    obtain rfl := Option.some.inj (hp.symm.trans hq)
    exact ⟨_, AList.lookup_insert _, hcovered⟩
  · refine ⟨q, ?_, fun h => h⟩
    rw [AList.lookup_insert_ne]
    · exact hq
    · exact fun hname => heq (nodeName_injective host hname)

theorem Inv.others (hi : Inv host hpos n s) {key : String}
    (hkey : startsWith key DISCOVERY_NODES_PREFIX = false) (present : Bool)
    (hs' : s' = { s with bucket :=
      if present = true then s.bucket.putObject key else s.bucket.deleteObject key }) :
    Inv host hpos n s' ∧ Keeps host hpos n s s' := by
  have hmem : ∀ k, startsWith k DISCOVERY_NODES_PREFIX = true → (k ∈ s'.bucket ↔ k ∈ s.bucket) := by
    intro k hk
    have hne : k ≠ key := by
      rintro rfl
      rw [hkey] at hk
      cases hk
    subst hs'
    dsimp only
    split
    · rw [Bucket.mem_putObject]
      exact or_iff_right hne
    · rw [Bucket.mem_deleteObject]
      exact and_iff_right hne
  have hmono : ∀ w : Fin g ⊕ Fin n, Registered host s.bucket w → Registered host s'.bucket w := by
    rintro w ⟨t, hk⟩
    exact ⟨t, (hmem _ (startsWith_keyOf w t)).mpr hk⟩
  have hsame : s'.processes = s.processes := by
    subst hs'
    rfl
  refine ⟨⟨fun k hk hstarts => hi.own k ((hmem k hstarts).mp hk) hstarts, fun x p hp => ?_⟩,
    fun w p hp => ⟨p, ?_, id⟩⟩
  · rw [hsame] at hp
    obtain ⟨w, hx, hlw, hw, hsound⟩ := hi.process x p hp
    exact ⟨w, hx, hlw, hmono w hw, hsound.mono hmono⟩
  · rw [hsame]
    exact hp

theorem Inv.step (hg : g < 2 ^ 64) (hn : n ≤ 2000) (hhost : NoSeparator host)
    (hi : Inv host hpos n s) (h : Simulation.step host g n s l = some s') :
    Inv host hpos n s' ∧ Keeps host hpos n s s' ∧ (l.timed = false →
      s'.processes.sumBy (fun _ p => work p.state) <
        s.processes.sumBy (fun _ p => work p.state)) := by
  have hn' : n < 2 ^ 64 := by omega
  rcases step_cases h with ⟨config, t, loop, hconfig, hnew, hloop, htimed, hs'⟩ |
    ⟨id, p, st, bucket, hp, hm, hs'⟩ |
    ⟨key, present, hkey, htimed, hs'⟩
  · obtain ⟨hi', hkeeps⟩ := hi.start hg hn' hconfig hnew hloop t hs'
    exact ⟨hi', hkeeps, fun hfalse => nomatch htimed.symm.trans hfalse⟩
  · obtain ⟨hi', hkeeps, hwork⟩ := hi.move hn hhost hp hm hs'
    refine ⟨hi', hkeeps, fun hfalse => ?_⟩
    have hsum := AList.sumBy_insert (fun _ (p : Process) => work p.state) hp { p with state := st }
    have hlt := hwork hfalse
    subst hs'
    dsimp only at hsum ⊢
    omega
  · obtain ⟨hi', hkeeps⟩ := hi.others hkey present hs'
    exact ⟨hi', hkeeps, fun hfalse => nomatch htimed.symm.trans hfalse⟩

end simulation

end servers

/-! ## The overlay -/

/-- The round is over, and no task waits. -/
def Process.AtRest (p : Process) : Prop :=
  p.state.round.getD [] = [] ∧ ∀ e ∈ p.state.peers.outboundTasks.toPairs, e.2.phase ≠ .lookingUp

section run

variable {host : String} {g n : Nat} {hpos : 0 < g} {s s' : Simulation} {x : NodeId} {p : Process}

theorem inv_of_reachable (hg : g < 2 ^ 64) (hn : n ≤ 2000) (hhost : NoSeparator host)
    (h : Reachable (Simulation.step host g n) (fun _ _ => True) .initial s) :
    Inv host hpos n s := by
  refine h.invariant (P := Inv host hpos n) ⟨fun k hk => ?_, fun x p hp => ?_⟩ ?_
  · exact absurd hk (AList.notMem_empty k)
  · exact absurd (AList.mem_of_lookup hp) (AList.notMem_empty x)
  · intro s l s' _ ih _ hstep
    exact (ih.step hg hn hhost hstep).1

theorem covered_of_reachable (hg : g < 2 ^ 64) (hn : n ≤ 2000) (hhost : NoSeparator host)
    (hi : Inv host hpos n s) {v : Fin g ⊕ Fin n}
    (hp : s.processes.lookup (configOf host v).nodeName = some p) (hc : Covered host hpos v p.state)
    (h : Reachable (Simulation.step host g n) (fun _ _ => True) s s') :
    Inv host hpos n s' ∧
      ∃ p', s'.processes.lookup (configOf host v).nodeName = some p' ∧
      Covered host hpos v p'.state := by
  refine h.invariant (P := fun s' => Inv host hpos n s' ∧
    ∃ p', s'.processes.lookup (configOf host v).nodeName = some p' ∧ Covered host hpos v p'.state)
      ⟨hi, p, hp, hc⟩ ?_
  rintro s l s' - ⟨hi, q, hq, hc⟩ - hstep
  obtain ⟨hi', hkeeps, -⟩ := hi.step hg hn hhost hstep
  obtain ⟨q', hq', hc'⟩ := hkeeps v q hq
  exact ⟨hi', q', hq', hc' hc⟩

theorem covered_of_tick (hhost : NoSeparator host) (hi : Inv host hpos n s) {v : Fin g ⊕ Fin n}
    (hstarted : ∀ y ∈ serverNames g n, y ∈ s.processes) (hl : LoopOf host hpos v p.loop)
    (hsound : Sound host hpos v s.bucket p.state) {t : DateTime} {added removed : List ReconcileOp}
    {st : DiscoveryLoop.State}
    (hstep : p.loop.step p.state (.tick t s.bucket added removed) = some st) :
    Covered host hpos v st := by
  obtain ⟨-, hpeers, hround, hadded, -⟩ := hsound.tick hl hhost hi.own hstep
  intro w hadj
  by_cases hreg : (configOf host w).nodeName ∈ p.state.peers.registry
  · obtain ⟨τ, hτ⟩ := hsound.mem_tasks_of_mem_registry hreg
    rw [hpeers]
    exact Or.inl (AList.mem_of_lookup hτ)
  · have hname : (configOf host w).nodeName ∈ serverNames g n :=
      mem_serverNames.mpr ⟨w, server_fst host w⟩
    obtain ⟨q, hq⟩ := AList.mem_iff_lookup.mp (hstarted _ hname)
    obtain ⟨w', hw', -, hregistered, -⟩ := hi.process _ q hq
    obtain rfl := nodeName_injective host hw'
    have hdesired := hl.mem_desired hhost hadj (hregistered.register p.loop.discovery t)
    obtain ⟨r, hr⟩ := AList.mem_iff_lookup.mp hdesired
    refine Or.inr ⟨_, r.addr, hround, List.mem_append_left _ (hadded.symm.subset ?_)⟩
    exact DiscoveryLoop.mem_toAdd.mpr ⟨_, r, hr, hreg, rfl⟩

theorem Inv.lists (hi : Inv host hpos n s) (hg : g < 2 ^ 64) (hn : n < 2 ^ 64)
    (hp : s.processes.lookup x = some p) {y : NodeId} {r : Bool}
    (hr : p.state.peers.registry.lookup y = some r) :
    Lists g n x y ∧ (y, r) ∈ replicas g n := by
  obtain ⟨v, rfl, -, -, hsound⟩ := hi.process x p hp
  obtain ⟨hphase, w, hw⟩ := (hsound.registry y r).mp hr
  obtain ⟨τ, hτ, -⟩ := Peers.phaseOf_eq_some_iff.mp hphase
  obtain ⟨⟨w', hadj, -, hid, -⟩, -⟩ := hsound.task y τ hτ
  refine ⟨(lists_iff hpos hg hn).mpr ⟨v, w', hadj, server_fst host v, ?_⟩, mem_replicas.mpr ⟨w, hw⟩⟩
  rw [server_fst host, hid]

theorem Sound.complete {v : Fin g ⊕ Fin n} {bucket : Bucket} (h : Sound host hpos v bucket p.state)
    (hc : Covered host hpos v p.state) (hrest : p.AtRest) {w : Fin g ⊕ Fin n}
    (hadj : (overlay n hpos).Adj v w) :
    p.state.peers.registry.lookup (configOf host w).nodeName =
      some (configOf host w).gcReplica := by
  obtain ⟨hround, hwaiting⟩ := hrest
  rcases hc w hadj with hmem | ⟨ops, addr, hops, hop⟩
  · obtain ⟨τ, hτ⟩ := AList.mem_iff_lookup.mp hmem
    have hphase := (h.task _ τ hτ).2.resolve_left (hwaiting (_, τ) (AList.mem_toPairs.mpr hτ))
    exact (h.registry _ _).mpr ⟨Peers.phaseOf_eq_some_iff.mpr ⟨τ, hτ, hphase⟩, w, server_eq w⟩
  · rw [hops, Option.getD_some] at hround
    rw [hround] at hop
    exact absurd hop List.not_mem_nil

theorem halts_of_inv (hg : g < 2 ^ 64) (hn : n ≤ 2000) (hhost : NoSeparator host)
    (hi : Inv host hpos n s) :
    Halts (Simulation.step host g n) (fun l => l.timed = false) s := by
  refine Transition.halts_of_descent Nat.lt_wfRel.wf
    (fun s => s.processes.sumBy fun _ p => work p.state)
    (P := Inv host hpos n) ?_ hi
  intro s l s' hi hl hstep
  obtain ⟨hi', -, hwork⟩ := hi.step hg hn hhost hstep
  exact Or.inr ⟨hi', hwork hl⟩

theorem exists_step (hp : s.processes.lookup x = some p) (hrest : ¬ p.AtRest) :
    ∃ l, l.timed = false ∧ (Simulation.step host g n s l).isSome = true := by
  by_cases hround : p.state.round.getD [] = []
  · obtain ⟨e, he, hwaiting⟩ : ∃ e ∈ p.state.peers.outboundTasks.toPairs,
        e.2.phase = .lookingUp := by
      by_contra hnone
      exact hrest ⟨hround, fun e he hphase => hnone ⟨e, he, hphase⟩⟩
    obtain ⟨task, addr, phase⟩ := e
    obtain rfl : phase = .lookingUp := hwaiting
    refine ⟨.runConnection x task, rfl, ?_⟩
    simp only [Simulation.step, Simulation.connection, hp, Option.bind_eq_bind, Option.bind_some,
      SimulatedNetwork.runConnection, AList.mem_toPairs.mp he]
    split <;> rfl
  · cases hops : p.state.round with
    | none =>
      rw [hops] at hround
      exact absurd rfl hround
    | some ops =>
      cases ops with
      | nil =>
        rw [hops] at hround
        exact absurd rfl hround
      | cons op ops =>
        refine ⟨.next x, rfl, ?_⟩
        simp only [Simulation.step, Simulation.discovery, hp, Option.bind_eq_bind, Option.bind_some,
          DiscoveryLoop.step, hops]
        rfl

end run

/-- **An experiment finds its overlay**: a server is only ever connected to peers that it lists, in
their roles; between two timers the servers come to rest; and once all have started, a server that
has begun another round and is at rest is connected to all that it lists. -/
theorem setup_builds_overlay (host : String) (g n : Nat) (hpos : 1 ≤ g) (hg : 8000 + g < 2 ^ 64)
    (hn : n ≤ 2000) (hhost : NoSeparator host) (s : Simulation)
    (h : Reachable (Simulation.step host g n) (fun _ _ => True) .initial s) :
    (∀ x p, s.processes.lookup x = some p → ∀ y r, p.state.peers.registry.lookup y = some r →
      Lists g n x y ∧ (y, r) ∈ replicas g n) ∧
    Halts (Simulation.step host g n) (fun l => l.timed = false) s ∧
    (∀ x p, s.processes.lookup x = some p → p.AtRest ∨
      ∃ l, l.timed = false ∧ (Simulation.step host g n s l).isSome = true) ∧
    ∀ x t added removed s₁ s₂ p, (∀ y ∈ serverNames g n, y ∈ s.processes) →
      Simulation.step host g n s (.tick x t added removed) = some s₁ →
      Reachable (Simulation.step host g n) (fun _ _ => True) s₁ s₂ →
      s₂.processes.lookup x = some p → p.AtRest →
      ∀ y r, p.state.peers.registry.lookup y = some r ↔ Lists g n x y ∧ (y, r) ∈ replicas g n := by
  have hg' : g < 2 ^ 64 := by omega
  have hn' : n < 2 ^ 64 := by omega
  have hi : Inv host hpos n s := inv_of_reachable hg' hn hhost h
  refine ⟨fun x p hp y r hr => hi.lists hg' hn' hp hr, halts_of_inv hg' hn hhost hi,
    fun x p hp => ?_, ?_⟩
  · by_cases hrest : p.AtRest
    · exact Or.inl hrest
    · exact Or.inr (exists_step hp hrest)
  · intro x t added removed s₁ s₂ p₂ hstarted htick h₂ hp₂ hrest y r
    obtain ⟨p, st, hp, hst, hs₁⟩ := tick_eq_some htick
    obtain ⟨v, rfl, hl, -, hsound⟩ := hi.process x p hp
    have hc := covered_of_tick hhost hi hstarted hl hsound hst
    have hp₁ : s₁.processes.lookup (configOf host v).nodeName = some { p with state := st } := by
      rw [hs₁]
      exact AList.lookup_insert _
    have hi₁ := (hi.step hg' hn hhost htick).1
    obtain ⟨hi₂, q, hq, hc₂⟩ := covered_of_reachable hg' hn hhost hi₁ hp₁ hc h₂
    obtain rfl := Option.some.inj (hp₂.symm.trans hq)
    refine ⟨fun hr => hi₂.lists hg' hn' hp₂ hr, ?_⟩
    rintro ⟨hlists, hrole⟩
    obtain ⟨v', w, hadj, hv', hw⟩ := (lists_iff hpos hg' hn').mp hlists
    obtain rfl : v' = v := nodeName_injective host ((server_fst host v').symm.trans hv')
    obtain ⟨w', hw'⟩ := mem_replicas.mp hrole
    have hsame : w' = w := server_name_injective (by
      show (server w').1 = (server w).1
      rw [hw, hw'])
    obtain ⟨v'', hv'', -, -, hsound₂⟩ := hi₂.process _ p₂ hp₂
    obtain rfl := nodeName_injective host hv''
    have hlookup := hsound₂.complete hc₂ hrest hadj
    have hserver : server w = ((configOf host w).nodeName, (configOf host w).gcReplica) :=
      server_eq w
    rw [hsame, hserver] at hw'
    rw [← (Prod.mk.inj hw').1, ← (Prod.mk.inj hw').2]
    exact hlookup

/-- The epoch of the clock. -/
def someTime : DateTime := ⟨0, by decide⟩

/-- Both servers of the smallest experiment start. -/
def bothStart : List Label :=
  [.start ⟨"localhost", "8001", "gc-server-1", true⟩ someTime,
    .start ⟨"localhost", "6001", "normal-server-1", false⟩ someTime]

/-- The GC server finds the other one. -/
def firstTick : Label :=
  .tick "gc-server-1" someTime [.addPeer "normal-server-1" "localhost:6001"] []

def firstRound : List Label :=
  [.next "gc-server-1", .complete "gc-server-1", .runConnection "gc-server-1" "normal-server-1"]

def runSmallest (s : Simulation) (ls : List Label) : Simulation :=
  (replay (Simulation.step "localhost" 1 1) (fun _ _ => True) s ls).getD s

def started : Simulation := runSmallest .initial bothStart
def ticked : Simulation := runSmallest started [firstTick]
def connected : Simulation := runSmallest ticked firstRound

theorem reachable_runSmallest {s : Simulation} {ls : List Label}
    (h : (replay (Simulation.step "localhost" 1 1) (fun _ _ => True) s ls).isSome = true) :
    Reachable (Simulation.step "localhost" 1 1) (fun _ _ => True) s (runSmallest s ls) :=
  reachable_of_isSome h

instance (p : Process) : Decidable p.AtRest := inferInstanceAs (Decidable (_ ∧ _))

/-- The GC server is connected to the normal one. -/
theorem setup_builds_overlay_firstRound : ∃ p, connected.processes.lookup "gc-server-1" = some p ∧
    p.state.peers.registry.lookup "normal-server-1" = some false := by
  have hstart :
      (replay (Simulation.step "localhost" 1 1) (fun _ _ => True) .initial bothStart).isSome =
        true := by
    decide +kernel
  have hall : ∀ y ∈ serverNames 1 1, y ∈ started.processes := by decide +kernel
  have htick : (Simulation.step "localhost" 1 1 started firstTick).isSome = true :=
    by decide +kernel
  have hround :
      (replay (Simulation.step "localhost" 1 1) (fun _ _ => True) ticked firstRound).isSome =
        true := by
    decide +kernel
  have hrest : (connected.processes.lookup "gc-server-1").any (fun p => decide p.AtRest) = true :=
    by decide +kernel
  obtain ⟨s₁, hs₁⟩ := Option.isSome_iff_exists.mp htick
  have hticked : ticked = s₁ := by
    show (replay (Simulation.step "localhost" 1 1) (fun _ _ => True) started [firstTick]).getD
      started = s₁
    rw [Transition.replay_cons trivial hs₁]
    rfl
  obtain ⟨p, hp, hatRest⟩ := (Option.any_eq_true _ _).mp hrest
  have hstarted : Reachable (Simulation.step "localhost" 1 1) (fun _ _ => True) .initial started :=
    reachable_runSmallest hstart
  have hconnected : Reachable (Simulation.step "localhost" 1 1) (fun _ _ => True) s₁ connected := by
    rw [← hticked]
    exact reachable_runSmallest hround
  have hlists : Lists 1 1 "gc-server-1" "normal-server-1" :=
    (lists_iff (by decide) (by decide) (by decide)).mpr ⟨.inl 0, .inr 0, rfl, rfl, rfl⟩
  refine ⟨p, hp, ?_⟩
  exact ((setup_builds_overlay "localhost" 1 1 (by decide) (by decide) (by decide)
    (by decide) started hstarted).2.2.2
    "gc-server-1" someTime _ [] s₁ connected p hall hs₁ hconnected hp
      (of_decide_eq_true hatRest) "normal-server-1"
    false).mpr ⟨hlists, by decide⟩

end Experiment

end ExperimentalCrdt
