import ExperimentalCrdt.Cluster.Convergence
import ExperimentalCrdt.Cluster.Deployment
import Mathlib.Data.List.Perm.Subperm

/-!
# The cluster over its connections is the cluster

Every run of the servers over their connections is a run of `Cluster`, with the same servers, the
same bucket and the same record (`deployment_refines_cluster`): what is on its way between them, in
the channels of the applications and in the connections, is in flight there. The envelopes that a
connection loses stay in flight for good, so nothing needs to be dropped, and none is ever
duplicated.

So what was shown of the cluster holds over the connections. `replicas_agree_over_connections` says
it for what the replicas contain.
-/

namespace ExperimentalCrdt

open TcpConnection (Connection Side Endpoint)
open Transition (Reachable)

theorem flatMap_set_perm {α β : Type} {f : α → List β} {a b : α} {x : List β}
    (h : (f b).Perm (f a ++ x)) :
    ∀ {l : List α} {k : Nat}, l[k]? = some a → ((l.set k b).flatMap f).Perm (l.flatMap f ++ x) := by
  intro l
  induction l with
  | nil => intro k hk; cases hk
  | cons y l ih =>
    intro k hk
    cases k with
    | zero =>
      obtain rfl := Option.some.inj hk
      rw [List.set_cons_zero, List.flatMap_cons, List.flatMap_cons, List.append_assoc]
      refine (h.append_right _).trans ?_
      rw [List.append_assoc]
      exact (List.perm_append_comm).append_left _
    | succ k =>
      rw [List.set_cons_succ, List.flatMap_cons, List.flatMap_cons, List.append_assoc]
      exact (ih hk).append_left _

theorem flatMap_set_eq {α β : Type} {f : α → List β} {a b : α} (h : f b = f a) {l : List α}
    {k : Nat} (hk : l[k]? = some a) : (l.set k b).flatMap f = l.flatMap f := by
  induction l generalizing k with
  | nil => cases hk
  | cons y l ih =>
    cases k with
    | zero =>
      obtain rfl := Option.some.inj hk
      rw [List.set_cons_zero, List.flatMap_cons, List.flatMap_cons, h]
    | succ k => rw [List.set_cons_succ, List.flatMap_cons, List.flatMap_cons, ih hk]

theorem subperm_eraseIdx {α : Type} {x : α} {l l' : List α} (h : (x :: l).Subperm l') :
    ∃ i, l'[i]? = some x ∧ l.Subperm (l'.eraseIdx i) := by
  obtain ⟨i, hi, rfl⟩ := List.mem_iff_getElem.mp (h.subset List.mem_cons_self)
  refine ⟨i, List.getElem?_eq_getElem hi, (List.subperm_cons l'[i]).mp ?_⟩
  exact h.trans (List.getElem_cons_eraseIdx_perm hi).symm.subperm

/-! ## The steps of one server -/

namespace Cluster

theorem step_with_network {l : Label String}
    (hl : ∀ i, l ≠ .receive i ∧ l ≠ .duplicate i ∧ l ≠ .drop i) {c : Cluster String}
    (hnone : c.network = []) (network : List (Packet String)) :
    Cluster.step { c with network } l =
      (c.step l).map fun c' => { c' with network := network ++ c'.network } := by
  obtain ⟨nodes, storage, _, history, commits⟩ := c
  obtain rfl := hnone
  cases l with
  | request id req =>
    cases hs : nodes.lookup id with
    | none => simp [Cluster.step, hs]
    | some s => by_cases hmay : mayRequest s req = true <;> simp [Cluster.step, hs, hmay, setServer]
  | handle id choice =>
    cases hs : nodes.lookup id with
    | none => simp [Cluster.step, hs]
    | some s =>
      simp only [Cluster.step, hs, Option.bind_eq_bind, Option.bind_some]
      split
      · simp [setServer, send]
      · rfl
  | resume id ok =>
    cases hs : nodes.lookup id with
    | none => simp [Cluster.step, hs]
    | some s => cases hout : s.resume ok storage <;> simp [Cluster.step, hs, hout, setServer]
  | start id gcReplica => by_cases hid : id ∈ nodes <;> simp [Cluster.step, hid, setServer]
  | heartbeat id => cases hs : nodes.lookup id <;> simp [Cluster.step, hs]
  | beginShutdown id =>
    cases hs : nodes.lookup id with
    | none => simp [Cluster.step, hs]
    | some s =>
      by_cases hrunning : s.shutdown = .running <;> simp [Cluster.step, hs, hrunning, setServer]
  | continueShutdown id ok =>
    cases hs : nodes.lookup id with
    | none => simp [Cluster.step, hs]
    | some s =>
      simp only [Cluster.step, hs, Option.bind_eq_bind, Option.bind_some]
      unfold Cluster.continueShutdown
      split
      · rfl
      · rfl
      · split <;> simp [setServer]
      · simp [setServer]
      · simp
  | connect id peer gcReplica | disconnect id peer =>
    cases hs : nodes.lookup id <;> simp [Cluster.step, hs, setServer]
  | receive i => exact absurd rfl (hl i).1
  | duplicate i => exact absurd rfl (hl i).2.1
  | drop i => exact absurd rfl (hl i).2.2

end Cluster

/-! ## What is on its way -/

/-- The envelopes on their way from one side of a connection to the other. -/
def mails (c : Connection) (s : Side) : List Mail :=
  (c.pending s).map fun e => ⟨(c.ends s).identity.nodeId, (c.ends s.other).identity.nodeId, e⟩

def transitOf (c : Connection) : List Mail := mails c .initiator ++ mails c .acceptor

/-- The packet that an envelope on its way stands for. -/
def Mail.toPacket (m : Mail) : Option (Packet String) :=
  (Envelope.ofProto m.envelope.1).map fun e => ⟨m.src, m.dst, e⟩

section transit

variable {c c' : Connection} {s : Side} {e : Endpoint} {envelope : Proto.ValidEnvelope}

theorem mails_congr (hpending : c'.pending s = c.pending s)
    (hid : ∀ t, (c'.ends t).identity = (c.ends t).identity) :
    mails c' s = mails c s := by
  unfold mails
  rw [hpending, hid, hid]

theorem transitOf_congr (hpending : ∀ t, c'.pending t = c.pending t)
    (hid : ∀ t, (c'.ends t).identity = (c.ends t).identity) :
    transitOf c' = transitOf c := by
  unfold transitOf
  rw [mails_congr (hpending _) hid, mails_congr (hpending _) hid]

theorem transitOf_add (hself : c'.pending s = c.pending s ++ [envelope])
    (hother : c'.pending s.other = c.pending s.other)
    (hid : ∀ t, (c'.ends t).identity = (c.ends t).identity) : (transitOf c').Perm
      (transitOf c ++
        [⟨(c.ends s).identity.nodeId, (c.ends s.other).identity.nodeId, envelope⟩]) := by
  have hmails : mails c' s =
      mails c s ++ [⟨(c.ends s).identity.nodeId, (c.ends s.other).identity.nodeId, envelope⟩] := by
    unfold mails
    rw [hself, List.map_append, hid, hid]
    rfl
  unfold transitOf
  cases s with
  | initiator =>
    have hkept : mails c' .acceptor = mails c .acceptor := mails_congr hother hid
    rw [hmails, hkept, List.append_assoc, List.append_assoc]
    exact List.perm_append_comm.append_left _
  | acceptor =>
    have hkept : mails c' .initiator = mails c .initiator := mails_congr hother hid
    rw [hmails, hkept, List.append_assoc]

theorem transitOf_remove (hself : c.pending s = envelope :: c'.pending s)
    (hother : c'.pending s.other = c.pending s.other)
    (hid : ∀ t, (c'.ends t).identity = (c.ends t).identity) : (transitOf c).Perm
      (transitOf c' ++
        [⟨(c.ends s).identity.nodeId, (c.ends s.other).identity.nodeId, envelope⟩]) := by
  have hmails : mails c s =
      ⟨(c.ends s).identity.nodeId, (c.ends s.other).identity.nodeId, envelope⟩ :: mails c' s := by
    unfold mails
    rw [hself, List.map_cons, hid, hid]
  unfold transitOf
  cases s with
  | initiator =>
    have hkept : mails c' .acceptor = mails c .acceptor := mails_congr hother hid
    rw [hmails, hkept]
    exact (List.perm_append_singleton _ _).symm
  | acceptor =>
    have hkept : mails c' .initiator = mails c .initiator := mails_congr hother hid
    rw [hmails, hkept, List.append_assoc]
    exact (List.perm_append_singleton _ _).symm.append_left _

end transit

namespace Deployment

variable {d d' : Deployment} {c : Cluster String}

/-- What is in the channels and on the connections. -/
def transit (d : Deployment) : List Mail := d.inbox ++ d.connections.flatMap transitOf

/-- What is on its way, as packets. -/
def packets (d : Deployment) : List (Packet String) := d.transit.filterMap Mail.toPacket

/-- The connections are what they should be, a handle leads to the peer it stands for, and every
envelope on its way is a message. -/
structure Wired (d : Deployment) : Prop where
  quiet : d.cluster.network = []
  connections : ∀ c ∈ d.connections, TcpConnection.Inv c
  handles : ∀ id peer k s, d.handles.lookup (id, peer) = some (k, s) →
    ∃ c, d.connections[k]? = some c ∧
    (c.ends s).identity.nodeId = id ∧ (c.ends s.other).identity.nodeId = peer
  sound : ∀ m ∈ d.transit, m.toPacket.isSome = true

/-- The cluster holds what the servers hold, and has in flight what is on its way. -/
structure Refines (d : Deployment) (c : Cluster String) : Prop where
  same : c = { d.cluster with network := c.network }
  network : d.packets.Subperm c.network

theorem Wired.set (h : d.Wired) {k : Nat} {a b : Connection} (hk : d.connections[k]? = some a)
    (hb : TcpConnection.Inv b) (hid : ∀ t, (b.ends t).identity = (a.ends t).identity)
    (hsound : ∀ m ∈ transitOf b, m.toPacket.isSome = true) :
    { d with connections := d.connections.set k b }.Wired := by
  refine ⟨h.quiet, fun c hc => ?_, fun id peer j s hlookup => ?_, fun m hm => ?_⟩
  · rcases List.mem_or_eq_of_mem_set hc with hc | rfl
    · exact h.connections c hc
    · exact hb
  · obtain ⟨c, hc, hself, hother⟩ := h.handles id peer j s hlookup
    by_cases hj : k = j
    · subst hj
      obtain rfl := Option.some.inj (hk.symm.trans hc)
      refine ⟨b, List.getElem?_set_self (List.getElem?_eq_some_iff.mp hk).1, ?_, ?_⟩
      · rw [hid]
        exact hself
      · rw [hid]
        exact hother
    · exact ⟨c, (List.getElem?_set_ne hj).trans hc, hself, hother⟩
  · rcases List.mem_append.mp hm with hm | hm
    · exact h.sound m (List.mem_append_left _ hm)
    · obtain ⟨c, hc, hmc⟩ := List.mem_flatMap.mp hm
      rcases List.mem_or_eq_of_mem_set hc with hc | rfl
      · exact h.sound m (List.mem_append_right _ (List.mem_flatMap.mpr ⟨c, hc, hmc⟩))
      · exact hsound m hmc

theorem Wired.sound_of (h : d.Wired) {k : Nat} {a : Connection} (hk : d.connections[k]? = some a) :
    ∀ m ∈ transitOf a, m.toPacket.isSome = true := fun m hm =>
  h.sound m (List.mem_append_right _ (List.mem_flatMap.mpr ⟨a, List.mem_of_getElem? hk, hm⟩))

theorem transit_set {k : Nat} {a b : Connection} (hk : d.connections[k]? = some a)
    (h : transitOf b = transitOf a) :
    Deployment.transit { d with connections := d.connections.set k b } = d.transit := by
  unfold transit
  rw [flatMap_set_eq h hk]

theorem transit_set_perm {k : Nat} {a b : Connection} {x : List Mail}
    (hk : d.connections[k]? = some a) (h : (transitOf b).Perm (transitOf a ++ x)) :
    (Deployment.transit { d with connections := d.connections.set k b }).Perm (d.transit ++ x) := by
  unfold transit
  rw [List.append_assoc]
  exact (flatMap_set_perm h hk).append_left _

/-! ## Sending -/

/-- Messages have been handed over, and some of them may have been lost. -/
structure Carries (d d' : Deployment) (sent : List (Packet String)) : Prop where
  wired : d'.Wired
  cluster : d'.cluster = d.cluster
  packets : d'.packets.Subperm (d.packets ++ sent)

theorem Wired.carries_self (h : d.Wired) (sent : List (Packet String)) : Carries d d sent :=
  ⟨h, rfl, (List.sublist_append_left _ _).subperm⟩

theorem Carries.trans {d'' : Deployment} {sent sent' : List (Packet String)} (h : Carries d d' sent)
    (h' : Carries d' d'' sent') : Carries d d'' (sent ++ sent') := by
  refine ⟨h'.wired, h'.cluster.trans h.cluster, h'.packets.trans ?_⟩
  rw [← List.append_assoc]
  exact (List.subperm_append_right _).mpr h.packets

theorem Wired.sendPacket (h : d.Wired) (p : Packet String) : Carries d (d.sendPacket p) [p] := by
  unfold Deployment.sendPacket
  split
  · exact h.carries_self _
  · next k s hlookup =>
    obtain ⟨a, hk, hsrc, hdst⟩ := h.handles _ _ k s hlookup
    rw [hk]
    dsimp only
    split
    · next hfits =>
      split
      · exact h.carries_self _
      · next e hsent =>
        have hinv := h.connections a (List.mem_of_getElem? hk)
        have hid : ∀ t, ((a.setEnd s e).ends t).identity = (a.ends t).identity := by
          obtain ⟨-, -, rfl⟩ := TcpConnection.trySend_eq_some hsent
          exact TcpConnection.identity_setEnd s rfl
        obtain ⟨hself, hother⟩ := TcpConnection.pending_offer hinv hsent
        have hadd := transitOf_add hself hother hid
        have hpacket :
            Mail.toPacket ⟨(a.ends s).identity.nodeId, (a.ends s.other).identity.nodeId,
            p.envelope.toValid hfits⟩ =
            some p := by
          unfold Mail.toPacket Envelope.toValid
          rw [Envelope.ofProto_toProto hfits, hsrc, hdst]
          rfl
        refine ⟨h.set hk
          (hinv.offer (show TcpConnection.size (p.envelope.toValid hfits) < _ from hfits.2.1) hsent)
            hid fun m hm => ?_, rfl, ?_⟩
        · rcases List.mem_append.mp (hadd.subset hm) with hm | hm
          · exact h.sound_of hk m hm
          · obtain rfl := List.mem_singleton.mp hm
            rw [hpacket]
            rfl
        · have hpackets := (transit_set_perm hk hadd).filterMap Mail.toPacket
          rw [List.filterMap_append, List.filterMap_cons_some hpacket, List.filterMap_nil]
            at hpackets
          exact hpackets.subperm
    · exact h.carries_self _

theorem Wired.sendAll (h : d.Wired) (packets : List (Packet String)) :
    Carries d (d.sendAll packets) packets := by
  induction packets generalizing d with
  | nil => exact h.carries_self _
  | cons p packets ih =>
    have hfirst := h.sendPacket p
    exact hfirst.trans (ih hfirst.wired)

/-! ## Stopping -/

theorem inv_reapConnection (alive : NodeId → Bool) {a : Connection} (h : TcpConnection.Inv a) :
    TcpConnection.Inv (reapConnection alive a) ∧
    (∀ s, ((reapConnection alive a).ends s).identity = (a.ends s).identity) ∧
      transitOf (reapConnection alive a) = transitOf a := by
  have hm : ∀ s, TcpConnection.LocalMove (a.ends s) ((reapConnection alive a).ends s) := by
    intro s
    unfold reapConnection
    dsimp only
    split
    · exact TcpConnection.LocalMove.refl _
    · exact TcpConnection.localMove_close _
  have hid := fun s => (hm s).identity
  refine ⟨⟨fun s => (h.ends s).local (hm s), fun s => ?_⟩, hid, ?_⟩
  · obtain ⟨unread, hcarried⟩ := h.pipes s
    exact ⟨unread, (hcarried.keeps (hm s).toSendKeeps).receiver (hm s.other).received
      (hm s.other).header⟩
  · refine transitOf_congr (TcpConnection.pending_congr (fun s => ?_) fun s => ?_) hid
    · unfold Endpoint.accepted
      rw [(hm s).sent]
    · rw [(hm s).received]

theorem Wired.reap (h : d.Wired) : Carries d d.reap [] := by
  have hsub : List.Sublist d.reap.transit d.transit := by
    have hsame : d.reap.connections.flatMap transitOf = d.connections.flatMap transitOf := by
      show (d.connections.map _).flatMap transitOf = _
      rw [List.flatMap_map]
      refine List.flatMap_congr fun a ha => ?_
      exact (inv_reapConnection _ (h.connections a ha)).2.2
    unfold transit
    rw [hsame]
    exact List.filter_sublist.append_right _
  refine ⟨⟨h.quiet, fun a ha => ?_, fun id peer k s hlookup => ?_,
    fun m hm => h.sound m (hsub.subset hm)⟩, rfl, ?_⟩
  · obtain ⟨b, hb, rfl⟩ := List.mem_map.mp ha
    exact (inv_reapConnection _ (h.connections b hb)).1
  · have hbefore : d.handles.lookup (id, peer) = some (k, s) := by
      change (d.handles.retain _).lookup _ = _ at hlookup
      rw [AList.lookup_retain] at hlookup
      exact (Option.filter_eq_some_iff.mp hlookup).1
    obtain ⟨a, hk, hself, hother⟩ := h.handles id peer k s hbefore
    obtain ⟨-, hid, -⟩ := inv_reapConnection (fun id => decide (id ∈ d.cluster.nodes))
      (h.connections a (List.mem_of_getElem? hk))
    refine ⟨_, List.getElem?_map.trans (congrArg (Option.map _) hk),
      (hid s).symm ▸ hself, (hid s.other).symm ▸ hother⟩
  · rw [List.append_nil]
    exact (hsub.filterMap _).subperm

/-! ## The registry -/

/-- What is on its way has not changed, and the connections lead where they led. -/
structure Kept (d d' : Deployment) : Prop where
  wired : d'.Wired
  cluster : d'.cluster = d.cluster
  transit : d'.transit = d.transit
  ends : ∀ (k : Nat) (a : Connection), d.connections[k]? = some a →
    ∃ b : Connection, d'.connections[k]? = some b ∧
    ∀ s, (b.ends s).identity = (a.ends s).identity

theorem Kept.packets (h : Kept d d') : d'.packets = d.packets :=
  congrArg (List.filterMap Mail.toPacket) h.transit

theorem Wired.kept_self (h : d.Wired) : Kept d d :=
  ⟨h, rfl, rfl, fun _ a hk => ⟨a, hk, fun _ => rfl⟩⟩

theorem Wired.kept_set (h : d.Wired) {k : Nat} {a b : Connection} (hk : d.connections[k]? = some a)
    (hb : TcpConnection.Inv b) (hid : ∀ t, (b.ends t).identity = (a.ends t).identity)
    (htransit : transitOf b = transitOf a) :
    Kept d { d with connections := d.connections.set k b } := by
  refine ⟨h.set hk hb hid (htransit ▸ h.sound_of hk), rfl, transit_set hk htransit,
    fun j a' hj => ?_⟩
  by_cases heq : k = j
  · subst heq
    obtain rfl := Option.some.inj (hk.symm.trans hj)
    exact ⟨b, List.getElem?_set_self (List.getElem?_eq_some_iff.mp hk).1, hid⟩
  · exact ⟨a', (List.getElem?_set_ne heq).trans hj, fun _ => rfl⟩

theorem Wired.dropHandle (h : d.Wired) (id peer : NodeId) : Kept d (d.dropHandle id peer) := by
  unfold Deployment.dropHandle
  split
  · exact h.kept_self
  · next k s hlookup =>
    obtain ⟨a, hk, -⟩ := h.handles id peer k s hlookup
    have herased : Deployment.Wired { d with handles := d.handles.erase (id, peer) } := by
      refine ⟨h.quiet, h.connections, fun id' peer' j t hlookup' => ?_, h.sound⟩
      rw [AList.lookup_erase_eq] at hlookup'
      split at hlookup'
      · cases hlookup'
      · exact h.handles id' peer' j t hlookup'
    dsimp only
    rw [hk]
    dsimp only
    have hinv := h.connections a (List.mem_of_getElem? hk)
    -- the handle may be gone already
    suffices hafter : ∃ b, (a.step (.dropHandle s)).getD a = b ∧ TcpConnection.Inv b ∧
        (∀ t, (b.ends t).identity = (a.ends t).identity) ∧ transitOf b = transitOf a by
      obtain ⟨b, hb, hinv', hid, htransit⟩ := hafter
      rw [hb]
      have hset := herased.kept_set (d := { d with handles := d.handles.erase (id, peer) })
        hk hinv' hid htransit
      exact ⟨hset.wired, hset.cluster, hset.transit, hset.ends⟩
    cases hstep : a.step (.dropHandle s) with
    | none => exact ⟨a, rfl, hinv, fun _ => rfl, rfl⟩
    | some b =>
      obtain ⟨evs, hadvance⟩ := TcpConnection.advance_of_step hstep
      have hm := TcpConnection.move_of_advance (by simp) hadvance
      refine ⟨b, rfl, hinv.move hm, hm.identity, transitOf_congr ?_ hm.identity⟩
      change (if _ then _ else _) = _ at hadvance
      split at hadvance
      · obtain ⟨rfl, rfl⟩ := Prod.mk.inj (Option.some.inj hadvance)
        exact TcpConnection.pending_setEnd rfl rfl
      · cases hadvance

/-! ## One step -/

/-- The step of the cluster that a step stands for. -/
inductive Label.Images : Label → ExperimentalCrdt.Label String → Prop where
  | server (l : ExperimentalCrdt.Label String) : Images (.server l) l
  | connect (k : Nat) (l : TcpConnection.Label) (id peer : NodeId) (gcReplica : Bool) :
    Images (.transport k l) (.connect id peer gcReplica)
  | receive (id : NodeId) (i : Nat) : Images (.process id) (.receive i)
  | disconnect (id peer : NodeId) : Images (.remove id peer) (.disconnect id peer)

/-- What the cluster does meanwhile: nothing, or one step. -/
def Follows (d' : Deployment) (l : Label) (c : Cluster String) : Prop :=
  d'.Wired ∧ ∃ c', (c' = c ∨ ∃ m, l.Images m ∧ c.step m = some c') ∧ d'.Refines c'

theorem Wired.withCluster (h : d.Wired) {cluster : Cluster String} (hquiet : cluster.network = []) :
    Deployment.Wired { d with cluster } := ⟨hquiet, h.connections, h.handles, h.sound⟩

theorem Refines.step_with_network (hr : d.Refines c) (h : d.Wired)
    {l : ExperimentalCrdt.Label String} (hl : ∀ i, l ≠ .receive i ∧ l ≠ .duplicate i ∧ l ≠ .drop i)
    {cluster : Cluster String} (hstep : d.cluster.step l = some cluster) :
    c.step l = some { cluster with network := c.network ++ cluster.network } := by
  rw [hr.same, Cluster.step_with_network hl h.quiet, hstep]
  rfl

theorem Wired.server (h : d.Wired) (hr : d.Refines c) {l : ExperimentalCrdt.Label String}
    (hstep : d.step (.server l) = some d') : d'.Follows (.server l) c := by
  change (if _ then _ else _) = _ at hstep
  split at hstep
  · next hlocal =>
    obtain ⟨cluster, hcluster, hrest⟩ := Option.bind_eq_some_iff.mp hstep
    split at hrest
    · obtain rfl := Option.some.inj hrest
      have hnew : Deployment.Wired { d with cluster := { cluster with network := [] } } :=
        h.withCluster rfl
      have hcarries :=
        (hnew.sendAll cluster.network).trans (hnew.sendAll cluster.network).wired.reap
      refine ⟨hcarries.wired, _,
        Or.inr ⟨l, .server l, hr.step_with_network h (fun i => ?_) hcluster⟩, ?_, ?_⟩
      · refine ⟨?_, ?_, ?_⟩ <;> rintro rfl <;> cases hlocal
      · rw [hcarries.cluster]
      · refine hcarries.packets.trans ?_
        rw [List.append_nil]
        exact (List.subperm_append_right _).mpr hr.network
    · cases hrest
  · cases hstep

theorem pending_opened (peer : Side → TcpConnection.Identity) (s : Side) :
    (Connection.opened peer).pending s = [] := by
  cases s <;> rfl

theorem Wired.dial (h : d.Wired) (hr : d.Refines c) {src dst : NodeId}
    (hstep : d.step (.dial src dst) = some d') :
    d'.Follows (.dial src dst) c := by
  obtain ⟨s, -, hstep⟩ := Option.bind_eq_some_iff.mp hstep
  obtain ⟨t, -, hstep⟩ := Option.bind_eq_some_iff.mp hstep
  obtain ⟨a, -, hstep⟩ := Option.bind_eq_some_iff.mp hstep
  obtain ⟨b, -, hstep⟩ := Option.bind_eq_some_iff.mp hstep
  obtain rfl := Option.some.inj hstep
  have htransit : ∀ peer, transitOf (Connection.opened peer) = [] := by
    intro peer
    unfold transitOf mails
    rw [pending_opened, pending_opened]
    rfl
  have hsame : ∀ peer, Deployment.transit
      { d with connections := d.connections ++ [.opened peer] } = d.transit := by
    intro peer
    unfold transit
    rw [List.flatMap_append, List.flatMap_singleton, htransit, List.append_nil]
  refine ⟨⟨h.quiet, fun x hx => ?_, fun id peer k s hlookup => ?_, ?_⟩, c, Or.inl rfl, hr.same, ?_⟩
  · rcases List.mem_append.mp hx with hx | hx
    · exact h.connections x hx
    · obtain rfl := List.mem_singleton.mp hx
      exact TcpConnection.inv_opened _
  · obtain ⟨x, hk, hends⟩ := h.handles id peer k s hlookup
    exact ⟨x, (List.getElem?_append_left (List.getElem?_eq_some_iff.mp hk).1).trans hk, hends⟩
  · rw [hsame]
    exact h.sound
  · unfold packets
    rw [hsame]
    exact hr.network

theorem Wired.registered (h : d.Wired) (hr : d.Refines c) {k : Nat} {a : Connection}
    (hk : d.connections[k]? = some a) {s : Side} {gc : Bool} (l : TcpConnection.Label) :
    (d.occur k (.registered s (a.ends s.other).identity.nodeId gc)).Follows (.transport k l) c := by
  unfold occur
  dsimp only
  rw [hk]
  dsimp only
  split
  · exact ⟨h, c, Or.inl rfl, hr⟩
  · next cluster hcluster =>
    have hkept := h.dropHandle (a.ends s).identity.nodeId (a.ends s.other).identity.nodeId
    have hstep := hr.step_with_network h (by simp) hcluster
    have hquiet : cluster.network = [] := by
      obtain ⟨x, -, hx⟩ := Option.bind_eq_some_iff.mp hcluster
      obtain rfl := Option.some.inj hx
      exact h.quiet
    refine ⟨⟨hquiet, hkept.wired.connections, fun id peer j t hlookup => ?_, hkept.wired.sound⟩, _,
      Or.inr ⟨_, .connect k l _ _ gc, hstep⟩, rfl, ?_⟩
    · change (AList.insert _ _ _).lookup _ = _ at hlookup
      rw [AList.lookup_insert_eq] at hlookup
      split at hlookup
      · next heq =>
        obtain ⟨rfl, rfl⟩ := Prod.mk.inj heq
        obtain ⟨rfl, rfl⟩ := Prod.mk.inj (Option.some.inj hlookup)
        obtain ⟨b, hb, hid⟩ := hkept.ends k a hk
        exact ⟨b, hb, by rw [hid], by rw [hid]⟩
      · exact hkept.wired.handles id peer j t hlookup
    · rw [hquiet, List.append_nil]
      exact hkept.packets.symm ▸ hr.network

theorem Wired.transport (h : d.Wired) (hr : d.Refines c) {k : Nat} {l : TcpConnection.Label}
    (hstep : d.step (.transport k l) = some d') : d'.Follows (.transport k l) c := by
  obtain ⟨a, hk, hstep⟩ := Option.bind_eq_some_iff.mp hstep
  dsimp only at hstep
  split at hstep
  · next htasks =>
    obtain ⟨⟨b, evs⟩, hadvance, hstep⟩ := Option.bind_eq_some_iff.mp hstep
    obtain rfl := Option.some.inj hstep
    have hinv := h.connections a (List.mem_of_getElem? hk)
    have hm : TcpConnection.Move a b evs := by
      refine TcpConnection.move_of_advance (fun s envelope heq => ?_) hadvance
      subst heq
      cases htasks
    have hb := hinv.move hm
    have hset : (d.connections.set k b)[k]? = some b :=
      List.getElem?_set_self (List.getElem?_eq_some_iff.mp hk).1
    rcases hm.pending hinv with ⟨hevs, hpending⟩ | ⟨s, envelope, hpending, hother, rfl⟩
    · -- nothing was read
      have hkept := h.kept_set hk hb hm.identity (transitOf_congr hpending hm.identity)
      have hr' : Deployment.Refines { d with connections := d.connections.set k b } c :=
        ⟨hr.same, hkept.packets.symm ▸ hr.network⟩
      rcases hevs with rfl | ⟨s, id, gc, rfl⟩
      · exact ⟨hkept.wired, c, Or.inl rfl, hr'⟩
      · -- the registry gets the peer of the handshake, which is the one at the other end
        obtain ⟨rfl, -⟩ := hb.remote (Or.inr (hm.registered_phase (List.mem_singleton_self _)))
        exact hkept.wired.registered hr' hset l
    · -- an envelope has left the connection for the channel of the application
      have hremove : (transitOf a).Perm (transitOf b ++
          [⟨(a.ends s.other).identity.nodeId, (a.ends s).identity.nodeId, envelope⟩]) := by
        have hremove :=
          transitOf_remove (s := s.other) hpending (by rwa [Side.other_other]) hm.identity
        rwa [Side.other_other] at hremove
      have hsound :=
        h.sound_of hk _ (hremove.symm.subset (List.mem_append_right _ (List.mem_singleton_self _)))
      have hsome : envelope.1.payload.isSome = true := by
        unfold Mail.toPacket Envelope.ofProto at hsound
        generalize envelope.1.payload = payload at hsound
        cases payload with
        | none => cases hsound
        | some p => rfl
      rw [hsome, if_pos rfl]
      dsimp only
      rw [List.foldl_cons, List.foldl_nil]
      unfold occur
      dsimp only
      rw [hset]
      dsimp only
      rw [hm.identity, hm.identity]
      have hperm : (d.inbox ++
          [Mail.mk (a.ends s.other).identity.nodeId (a.ends s).identity.nodeId envelope] ++
          (d.connections.set k b).flatMap transitOf).Perm d.transit := by
        have hback : d.connections = (d.connections.set k b).set k a := by
          rw [List.set_set]
          obtain ⟨hlt, rfl⟩ := List.getElem?_eq_some_iff.mp hk
          exact (List.set_getElem_self hlt).symm
        have hflat := flatMap_set_perm hremove hset
        rw [← hback] at hflat
        rw [List.append_assoc]
        exact ((List.perm_append_comm.trans hflat.symm).append_left d.inbox)
      have hwired := h.set hk hb hm.identity fun m hmem =>
        h.sound_of hk m (hremove.symm.subset (List.mem_append_left _ hmem))
      exact ⟨⟨h.quiet, hwired.connections, hwired.handles,
        fun m hmem => h.sound m (hperm.subset hmem)⟩, c, Or.inl rfl,
        hr.same, (hperm.filterMap _).subperm.trans hr.network⟩
  · cases hstep

theorem Wired.process (h : d.Wired) (hr : d.Refines c) {id : NodeId}
    (hstep : d.step (.process id) = some d') :
    d'.Follows (.process id) c := by
  obtain ⟨s, hs, hstep⟩ := Option.bind_eq_some_iff.mp hstep
  obtain ⟨m, hfind, hstep⟩ := Option.bind_eq_some_iff.mp hstep
  split at hstep
  · next hrunning =>
    obtain rfl := Option.some.inj hstep
    have hdst : m.dst = id := by simpa using List.find?_some hfind
    subst hdst
    obtain ⟨l₁, l₂, hinbox, hfirst⟩ : ∃ l₁ l₂, d.inbox = l₁ ++ m :: l₂ ∧
        d.inbox.eraseP (fun x => x.dst = m.dst) = l₁ ++ l₂ := by
      obtain ⟨-, l₁, l₂, hinbox, hbefore⟩ := List.find?_eq_some_iff_append.mp hfind
      refine ⟨l₁, l₂, hinbox, ?_⟩
      rw [hinbox, List.eraseP_append_right _ (fun x hx => by simpa using hbefore x hx),
        List.eraseP_cons_of_pos (by simp)]
    have hperm : d.transit.Perm (m :: (l₁ ++ l₂ ++ d.connections.flatMap transitOf)) := by
      unfold transit
      rw [hinbox]
      exact List.perm_middle.append_right _
    obtain ⟨p, hp⟩ := Option.isSome_iff_exists.mp (h.sound m (hperm.symm.subset List.mem_cons_self))
    obtain ⟨envelope, henvelope, rfl⟩ := Option.map_eq_some_iff.mp hp
    have hnetwork := (hperm.filterMap Mail.toPacket).symm.subperm.trans hr.network
    rw [List.filterMap_cons_some hp] at hnetwork
    obtain ⟨i, hi, hrest⟩ := subperm_eraseIdx hnetwork
    have hafter : c.step (.receive i) = some
        { c.setServer m.dst (s.enqueue (handleReceivedEnvelope envelope)) with
            network := c.network.eraseIdx i } := by
      have hlookup : c.nodes.lookup m.dst = some s := by
        rw [hr.same]
        exact hs
      simp [Cluster.step, hi, hlookup, hrunning]
    refine ⟨⟨h.quiet, h.connections, h.handles,
      fun x hx => h.sound x (hperm.symm.subset (List.mem_cons_of_mem _ ?_))⟩, _,
      Or.inr ⟨_, .receive _ i, hafter⟩, ?_, ?_⟩
    · rwa [← hfirst]
    · dsimp only
      rw [Envelope.handleReceivedEnvelope_ofProto henvelope, hr.same]
      rfl
    · rw [← hfirst] at hrest
      exact hrest
  · cases hstep

theorem Wired.remove (h : d.Wired) (hr : d.Refines c) {id peer : NodeId}
    (hstep : d.step (.remove id peer) = some d') :
    d'.Follows (.remove id peer) c := by
  obtain ⟨cluster, hcluster, hstep⟩ := Option.bind_eq_some_iff.mp hstep
  obtain rfl := Option.some.inj hstep
  have hquiet : cluster.network = [] := by
    obtain ⟨x, -, hx⟩ := Option.bind_eq_some_iff.mp hcluster
    obtain rfl := Option.some.inj hx
    exact h.quiet
  have hkept := (h.withCluster hquiet).dropHandle id peer
  refine ⟨hkept.wired, _,
    Or.inr ⟨_, .disconnect id peer, hr.step_with_network h (by simp) hcluster⟩, ?_, ?_⟩
  · rw [hkept.cluster]
  · rw [hquiet, List.append_nil]
    exact hkept.packets.symm ▸ hr.network

/-- **One step** is nothing to the cluster, or one of its steps. -/
theorem Wired.step (h : d.Wired) (hr : d.Refines c) {l : Label} (hstep : d.step l = some d') :
    d'.Follows l c := by
  cases l with
  | server l => exact h.server hr hstep
  | dial src dst => exact h.dial hr hstep
  | transport k l => exact h.transport hr hstep
  | process id => exact h.process hr hstep
  | remove id peer => exact h.remove hr hstep

theorem wired_fixed (members : HashMap NodeId Bool) : (fixed members).Wired :=
  ⟨rfl, nofun, fun _ _ _ _ h => (by cases h), nofun⟩

theorem refines_fixed (members : HashMap NodeId Bool) : (fixed members).Refines (.fixed members) :=
  ⟨rfl, List.nil_subperm⟩

theorem refines_of_reachable {members : HashMap NodeId Bool}
    (ok : ExperimentalCrdt.Label String → Prop)
    (h : Reachable Deployment.step (fun _ l => ∀ m, l.Images m → ok m) (fixed members) d) :
    d.Wired ∧ ∃ c, Reachable Cluster.step (fun _ m => ok m) (.fixed members) c ∧ d.Refines c := by
  refine h.invariant (P := fun d => d.Wired ∧
    ∃ c, Reachable Cluster.step (fun _ m => ok m) (.fixed members) c ∧ d.Refines c)
    ⟨wired_fixed members, _, .start, refines_fixed members⟩ fun d l d' _ ⟨hwired, c, hc, hr⟩
      hl hstep => ?_
  obtain ⟨hwired', c', hc', hr'⟩ := hwired.step hr hstep
  rcases hc' with rfl | ⟨m, hm, htaken⟩
  · exact ⟨hwired', c', hc, hr'⟩
  · exact ⟨hwired', c', .next hc (hl m hm) htaken, hr'⟩

/-- **The connections refine the network**: every run over connections is a run of the cluster, with
the same servers, bucket and record; what is in flight there holds what is on its way here. Each
step of it is one that a step of the run stands for, so it loses nothing and duplicates nothing. -/
theorem deployment_refines_cluster (members : HashMap NodeId Bool)
    (ok : ExperimentalCrdt.Label String → Prop) (d : Deployment)
    (h : Reachable Deployment.step (fun _ l => ∀ m, l.Images m → ok m) (fixed members) d) :
    ∃ c, Reachable Cluster.step (fun _ m => ok m) (.fixed members) c ∧
    c = { d.cluster with network := c.network } ∧
      d.packets.Subperm c.network := by
  obtain ⟨-, c, hc, hr⟩ := refines_of_reachable ok h
  exact ⟨c, hc, hr.same, hr.network⟩

/-- Nobody initiates garbage collection, and nobody comes or goes. -/
def Label.withoutGc : Label → Bool
  | .server l => l.withoutGc
  | _ => true

theorem withoutGc_of_images {l : Label} (hl : l.withoutGc = true)
    {m : ExperimentalCrdt.Label String} (hm : l.Images m) :
    m.withoutGc = true := by
  cases hm with
  | server => exact hl
  | connect | receive | disconnect => rfl

/-- `a` opens a connection to `b` and adds `x`; `b` asks for it. -/
def pullOverConnection : List Label :=
  [.dial "a" "b", .transport 0 (.write .initiator 14), .transport 0 (.arrive .initiator 14),
    .transport 0 (.flushed .initiator), .transport 0 (.read .acceptor),
      .transport 0 (.read .acceptor),
    .transport 0 (.write .acceptor 14), .transport 0 (.arrive .acceptor 14),
      .transport 0 (.flushed .acceptor),
    .transport 0 (.read .initiator), .transport 0 (.read .initiator),
    .server (.request "a" (.clientOperation (.add "x"))), .server (.handle "a" none),
    .server (.request "b" .doPullRound), .server (.handle "b" (some "a")),
    .transport 0 (.take .acceptor), .transport 0 (.write .acceptor 26),
      .transport 0 (.arrive .acceptor 26),
    .transport 0 (.read .initiator), .transport 0 (.read .initiator), .process "a",
      .server (.handle "a" none),
    .transport 0 (.take .initiator), .transport 0 (.write .initiator 50),
      .transport 0 (.arrive .initiator 50),
    .transport 0 (.read .acceptor), .transport 0 (.read .acceptor), .process "b",
      .server (.handle "b" none)]

def replayed : Option Deployment :=
  Transition.replay Deployment.step (fun _ l => l.withoutGc = true)
    (fixed (AList.ofPairs [("a", false), ("b", false)])) pullOverConnection

theorem exists_replayed : ∃ d k, replayed = some d ∧ d.cluster.core "b" = some k ∧
    k.replica.crdt.contains "x" = true := by
  have hrun : (replayed.bind fun d => (d.cluster.core "b").map fun k =>
      k.replica.crdt.contains "x") = some true := by
    decide +kernel
  obtain ⟨d, hd, hcore⟩ := Option.bind_eq_some_iff.mp hrun
  obtain ⟨k, hk, hcontains⟩ := Option.map_eq_some_iff.mp hcore
  exact ⟨d, k, hd, hk, hcontains⟩

/-- The cluster of the run, too, has `x` at `b`. -/
theorem deployment_refines_cluster_pullOverConnection :
    ∃ (c : Cluster String) (k : Core String "b"),
    Reachable Cluster.step (fun _ m => m.withoutGc = true)
      (.fixed (AList.ofPairs [("a", false), ("b", false)])) c ∧
      c.core "b" = some k ∧ k.replica.crdt.contains "x" = true := by
  obtain ⟨d, k, hd, hk, hcontains⟩ := exists_replayed
  obtain ⟨c, hc, hsame, -⟩ := deployment_refines_cluster _ (fun m => m.withoutGc = true) d
    ((Transition.reachable_of_replay _ .start hd).weaken fun _ _ hl _ hm =>
      withoutGc_of_images hl hm)
  refine ⟨c, k, hc, ?_, hcontains⟩
  rw [hsame]
  exact hk

/-- **The replicas agree over connections**: without garbage collection, and whatever the
connections do, a server contains an element just if it knows of an add of it that no remove it
knows of had observed; and servers that know the same hold the same. -/
theorem replicas_agree_over_connections (members : HashMap NodeId Bool) (d : Deployment)
    (h : Reachable Deployment.step (fun _ l => l.withoutGc = true) (fixed members) d) :
    (∀ id k, d.cluster.core id = some k → ∀ e, k.replica.crdt.contains e = true ↔
      ∃ p ∈ d.cluster.history, p.op = .add e ∧ k.replica.dvv.dominatesDot p.dot = true ∧
        ¬ ∃ q ∈ d.cluster.history, q.op = .remove e ∧ k.replica.dvv.dominatesDot q.dot = true ∧
          p.dot.counter ≤ counterAt q.past p.dot.nodeId) ∧
    ∀ id k id' k', d.cluster.core id = some k → d.cluster.core id' = some k' →
      (∀ n, counterAt k.replica.dvv.effectiveMap n = counterAt k'.replica.dvv.effectiveMap n) →
        ∀ e, k.replica.crdt.contains e = k'.replica.crdt.contains e := by
  obtain ⟨-, c, hc, hr⟩ := refines_of_reachable (fun m => m.withoutGc = true)
    (h.weaken fun _ _ hl _ hm => withoutGc_of_images hl hm)
  have hreplicated := (Cluster.withoutGc_of_reachable hc).replicated
  have hcore : ∀ id, c.core id = d.cluster.core id := by
    intro id
    rw [hr.same]
    rfl
  have hhistory : c.history = d.cluster.history := by
    rw [hr.same]
  refine ⟨fun id k hk e => ?_, fun id k id' k' hk hk' heq e => ?_⟩
  · rw [← hcore] at hk
    rw [← hhistory, Cluster.contains_iff_live hreplicated.unique (hreplicated.faithful id k hk)]
    simp only [Cluster.live_iff]
    constructor
    · rintro ⟨_, ⟨p, hp, hadd, rfl⟩, hknown, hnot⟩
      exact ⟨p, hp, hadd, hknown, fun ⟨q, hq, hrem, hqknown, hpast⟩ => hnot q hq hrem hqknown hpast⟩
    · rintro ⟨p, hp, hadd, hknown, hnot⟩
      exact ⟨p.dot, ⟨p, hp, hadd, rfl⟩, hknown,
        fun q hq hrem hqknown hpast => hnot ⟨q, hq, hrem, hqknown, hpast⟩⟩
  · rw [← hcore] at hk hk'
    rw [Bool.eq_iff_iff, Cluster.contains_iff_live hreplicated.unique
      (hreplicated.faithful id k hk),
      Cluster.contains_iff_live hreplicated.unique (hreplicated.faithful id' k' hk'),
        Cluster.known_eq_of_effectiveMap heq]

/-- `b` knows of the add of `x`. -/
theorem replicas_agree_over_connections_pullOverConnection :
    ∃ (d : Deployment) (k : Core String "b"),
    replayed = some d ∧ d.cluster.core "b" = some k ∧ k.replica.crdt.contains "x" = true ∧
      ∃ p ∈ d.cluster.history, p.op = .add "x" ∧ k.replica.dvv.dominatesDot p.dot = true ∧
        ¬ ∃ q ∈ d.cluster.history, q.op = .remove "x" ∧ k.replica.dvv.dominatesDot q.dot = true ∧
          p.dot.counter ≤ counterAt q.past p.dot.nodeId := by
  obtain ⟨d, k, hd, hk, hcontains⟩ := exists_replayed
  exact ⟨d, k, hd, hk, hcontains,
    ((replicas_agree_over_connections _ d (Transition.reachable_of_replay _ .start hd)).1
      "b" k hk "x").mp hcontains⟩

end Deployment

end ExperimentalCrdt
