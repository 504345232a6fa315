import ExperimentalCrdt.Cluster.System

/-!
# What the steps of the cluster can do

The invariants of later modules talk about the `core` of a server (its replica, its task, how far
its shutdown is), about the bucket, the record, and the requests that are `Pending` for a server,
whether queued or still in flight. Each kind of step gets one inversion lemma in these terms, with
everything the step leaves alone; the steps that only move requests and connections around share one
(`step_quiet`).
-/

namespace ExperimentalCrdt

variable {E : Type} {id : NodeId}

structure Core (E : Type) (id : NodeId) where
  replica : Replica E id
  task : EngineTask E
  shutdown : Shutdown

def Server.core (s : Server E id) : Core E id := ⟨s.engine.replica, s.engine.task, s.shutdown⟩

theorem Server.handle_rx [DecidableEq E] (s : Server E id) (m : EpochMetadata)
    (choice : Option NodeId) (req : CrdtEngineRequest E) :
    (s.handle m choice req).1.engine.rx = s.engine.rx := by
  cases req with
  | deltaResponse fromNode crdtId payload km =>
    simp only [Server.handle, CrdtEngine.handle, CrdtEngine.serverDelta]
    split
    · rfl
    · cases km <;> rfl
  | deltaRequest fromNode crdtId K =>
    simp only [Server.handle, CrdtEngine.handle, CrdtEngine.serverPullRequest]
    split <;> rfl
  | _ => rfl

/-- The request that a timer or a client puts into a queue by this label. -/
def Label.Puts (l : Label E) (req : CrdtEngineRequest E) : Prop :=
  ∃ id localRequest, l = .request id localRequest ∧ req = localRequest.toRequest

namespace Cluster

def core (c : Cluster E) (id : NodeId) : Option (Core E id) := (c.nodes.lookup id).map Server.core

def task (c : Cluster E) (id : NodeId) : Option (EngineTask E) := (c.core id).map fun k => k.task

/-- `req` is in the queue of `dst`, or in an envelope on its way there. -/
def Pending (c : Cluster E) (dst : NodeId) (req : CrdtEngineRequest E) : Prop :=
  (∃ s, c.nodes.lookup dst = some s ∧ req ∈ s.engine.rx) ∨
    ∃ p ∈ c.network, p.dst = dst ∧ req ∈ handleReceivedEnvelope p.envelope

/-- The request at the head of the queue of `id`. -/
def nextRequest (c : Cluster E) (id : NodeId) : Option (CrdtEngineRequest E) :=
  (c.nodes.lookup id).bind fun s => s.engine.rx.head?

/-- A request that no peer sends. -/
def Local : CrdtEngineRequest E → Prop
  | .deltaRequest _ _ _ => False
  | .deltaResponse _ _ _ _ => False
  | _ => True

instance : DecidablePred (Local : CrdtEngineRequest E → Prop) := fun req =>
  match req with
  | .deltaRequest _ _ _ | .deltaResponse _ _ _ _ => isFalse fun h => h
  | .doPullRound | .clientOperation _ | .deregistrationState | .initiateGc | .observeEpochChange =>
    isTrue trivial

theorem not_local_of_received {envelope : Envelope E} {req : CrdtEngineRequest E}
    (h : req ∈ handleReceivedEnvelope envelope) : ¬ Local req := by
  cases envelope with
  | crdtOp crdtId payload originNodeId requesterKnowledge knowledgeMatrix =>
    rcases List.mem_cons.mp h with rfl | h
    · exact fun hlocal => hlocal
    · split at h
      · split at h
        · cases h
        · rw [List.mem_singleton] at h
          subst h
          exact fun hlocal => hlocal
      · cases h
  | crdtPullRequest crdtId gcReplica originNodeId knowledge =>
    rw [handleReceivedEnvelope, List.mem_singleton] at h
    subst h
    exact fun hlocal => hlocal

theorem local_of_puts {l : Label E} {req : CrdtEngineRequest E} (h : l.Puts req) : Local req := by
  obtain ⟨id, localRequest, -, rfl⟩ := h
  cases localRequest <;> trivial

variable (c : Cluster E) (s : Server E id)

theorem core_of_lookup {s : Server E id} (h : c.nodes.lookup id = some s) :
    c.core id = some s.core := by
  rw [core, h, Option.map_some]

theorem core_setServer_self : (c.setServer id s).core id = some s.core :=
  core_of_lookup _ (AList.lookup_insert _)

theorem core_setServer_ne {k : NodeId} (hk : k ≠ id) : (c.setServer id s).core k = c.core k := by
  rw [core, core, setServer, AList.lookup_insert_ne hk]

theorem core_setServer_same {s s' : Server E id} (h : c.nodes.lookup id = some s)
    (hcore : s'.core = s.core) (k : NodeId) : (c.setServer id s').core k = c.core k := by
  by_cases hk : k = id
  · subst hk
    rw [core_setServer_self, hcore, c.core_of_lookup h]
  · exact core_setServer_ne c s' hk

theorem pending_setServer {dst : NodeId} {req : CrdtEngineRequest E}
    (h : (c.setServer id s).Pending dst req) :
    (dst = id ∧ req ∈ s.engine.rx) ∨ c.Pending dst req := by
  rcases h with ⟨t, ht, hreq⟩ | hnet
  · by_cases hd : dst = id
    · subst hd
      rw [setServer, AList.lookup_insert] at ht
      obtain rfl := Option.some.inj ht
      exact Or.inl ⟨rfl, hreq⟩
    · rw [setServer, AList.lookup_insert_ne hd] at ht
      exact Or.inr (Or.inl ⟨t, ht, hreq⟩)
  · exact Or.inr (Or.inr hnet)

theorem core_fixed (members : HashMap NodeId Bool) (id : NodeId) :
    (fixed members : Cluster E).core id =
      (members.lookup id).map fun gcReplica => ⟨.new gcReplica, .idle, .running⟩ := by
  rw [core, fixed, AList.lookup_mapWithKey, Option.map_map]
  rfl

theorem core_fixed_cases {members : HashMap NodeId Bool} {k : Core E id}
    (hk : (fixed members : Cluster E).core id = some k) :
    ∃ gcReplica, members.lookup id = some gcReplica ∧ k = ⟨.new gcReplica, .idle, .running⟩ := by
  rw [core_fixed] at hk
  obtain ⟨gcReplica, hmember, hk⟩ := Option.map_eq_some_iff.mp hk
  exact ⟨gcReplica, hmember, hk.symm⟩

theorem not_pending_fixed (members : HashMap NodeId Bool) (dst : NodeId)
    (req : CrdtEngineRequest E) :
    ¬ (fixed members : Cluster E).Pending dst req := by
  rintro (⟨s, hs, hreq⟩ | ⟨p, hp, -⟩)
  · rw [fixed, AList.lookup_mapWithKey] at hs
    obtain ⟨gcReplica, -, rfl⟩ := Option.map_eq_some_iff.mp hs
    cases hreq
  · cases hp

/-! ## Steps that only move requests and connections -/

/-- Nothing but queues, envelopes and connections changes, and what becomes pending is put there by
a timer or a client. -/
structure Quiet (l : Label E) (c c' : Cluster E) : Prop where
  core : ∀ id, c'.core id = c.core id
  storage : c'.storage = c.storage
  history : c'.history = c.history
  commits : c'.commits = c.commits
  pending : ∀ dst req, c'.Pending dst req → c.Pending dst req ∨ l.Puts req

end Cluster

/-- The labels of the quiet steps. -/
def Label.Quiet : Label E → Prop
  | .request _ _ | .receive _ | .duplicate _ | .drop _ | .connect _ _ _ | .disconnect _ _ => True
  | _ => False

namespace Cluster

variable [DecidableEq E] {c c' : Cluster E}

theorem step_quiet {l : Label E} (hl : l.Quiet) (h : c.step l = some c') : Quiet l c c' := by
  cases l with
  | request id req =>
    obtain ⟨s, hs, h⟩ := Option.bind_eq_some_iff.mp h
    split at h
    · obtain rfl := Option.some.inj h
      refine ⟨c.core_setServer_same hs rfl, rfl, rfl, rfl, fun dst r hr => ?_⟩
      rcases c.pending_setServer _ hr with ⟨rfl, hr⟩ | hr
      · rcases List.mem_append.mp hr with hr | hr
        · exact Or.inl (Or.inl ⟨s, hs, hr⟩)
        · rw [List.mem_singleton] at hr
          exact Or.inr ⟨_, req, rfl, hr⟩
      · exact Or.inl hr
    · cases h
  | receive i =>
    obtain ⟨p, hp, h⟩ := Option.bind_eq_some_iff.mp h
    obtain ⟨s, hs, h⟩ := Option.bind_eq_some_iff.mp h
    split at h
    · obtain rfl := Option.some.inj h
      have hmem : p ∈ c.network := List.mem_of_getElem? hp
      refine ⟨c.core_setServer_same hs rfl, rfl, rfl, rfl, fun dst r hr => Or.inl ?_⟩
      rcases hr with ⟨t, ht, hr⟩ | ⟨q, hq, hdst, hr⟩
      · rcases c.pending_setServer (s.enqueue (handleReceivedEnvelope p.envelope))
          (Or.inl ⟨t, ht, hr⟩) with ⟨hdst, hreq⟩ | hold
        · subst hdst
          have hreq : r ∈ s.engine.rx ++ handleReceivedEnvelope p.envelope := hreq
          rcases List.mem_append.mp hreq with hreq | hreq
          · exact Or.inl ⟨s, hs, hreq⟩
          · exact Or.inr ⟨p, hmem, rfl, hreq⟩
        · exact hold
      · exact Or.inr ⟨q, List.mem_of_mem_eraseIdx hq, hdst, hr⟩
    · cases h
  | duplicate i =>
    obtain ⟨p, hp, h⟩ := Option.bind_eq_some_iff.mp h
    obtain rfl := Option.some.inj h
    refine ⟨fun _ => rfl, rfl, rfl, rfl, fun dst r hr => Or.inl ?_⟩
    rcases hr with hr | ⟨q, hq, hdst, hr⟩
    · exact Or.inl hr
    · rcases List.mem_append.mp hq with hq | hq
      · exact Or.inr ⟨q, hq, hdst, hr⟩
      · rw [List.mem_singleton] at hq
        subst hq
        exact Or.inr ⟨q, List.mem_of_getElem? hp, hdst, hr⟩
  | drop i =>
    rw [step] at h
    split at h
    · obtain rfl := Option.some.inj h
      refine ⟨fun _ => rfl, rfl, rfl, rfl, fun dst r hr => Or.inl ?_⟩
      rcases hr with hr | ⟨q, hq, hdst, hr⟩
      · exact Or.inl hr
      · exact Or.inr ⟨q, List.mem_of_mem_eraseIdx hq, hdst, hr⟩
    · cases h
  | connect id peer gcReplica | disconnect id peer =>
    obtain ⟨s, hs, h⟩ := Option.bind_eq_some_iff.mp h
    obtain rfl := Option.some.inj h
    refine ⟨c.core_setServer_same hs rfl, rfl, rfl, rfl, fun dst r hr => Or.inl ?_⟩
    rcases c.pending_setServer _ hr with ⟨rfl, hr⟩ | hr
    · exact Or.inl ⟨s, hs, hr⟩
    · exact hr
  | _ => exact hl.elim

/-! ## Working off a request -/

/-- `s` is the server with `req` just taken from its queue. -/
structure Handled (c c' : Cluster E) (id : NodeId) (choice : Option NodeId) (s : Server E id)
    (req : CrdtEngineRequest E) : Prop where
  before : c.core id = some s.core
  idle : s.engine.task = .idle
  next : c.nextRequest id = some req
  taken : c.Pending id req
  after : c'.core id = some (s.handle c.storage.readEpochMetadata choice req).1.core
  others : ∀ k, k ≠ id → c'.core k = c.core k
  storage : c'.storage = c.storage
  history : c'.history = c.history ++ performed s req
  commits : c'.commits = c.commits
  pending : ∀ dst r, c'.Pending dst r → c.Pending dst r ∨
    ∃ envelope, (dst, envelope) ∈ (s.handle c.storage.readEpochMetadata choice req).2 ∧
      r ∈ handleReceivedEnvelope envelope

theorem step_handle {choice : Option NodeId} (h : c.step (.handle id choice) = some c') :
    ∃ s req, Handled c c' id choice s req := by
  obtain ⟨s, hs, h⟩ := Option.bind_eq_some_iff.mp h
  split at h
  · next req rest htask hrx =>
    obtain rfl := Option.some.inj h
    have hcore := c.core_of_lookup hs
    have hpending : ∀ r ∈ rest, c.Pending id r :=
      fun r hr => Or.inl ⟨s, hs, hrx ▸ List.mem_cons_of_mem _ hr⟩
    have hnext : c.nextRequest id = some req := by rw [nextRequest, hs, Option.bind_some, hrx]; rfl
    refine ⟨{ s with engine := { s.engine with rx := rest } }, req, hcore, htask, hnext,
      Or.inl ⟨s, hs, hrx ▸ by simp⟩, core_setServer_self _ _,
      fun k hk => core_setServer_ne _ _ hk, rfl, rfl, rfl, fun dst r hr => ?_⟩
    rcases hr with ⟨t, ht, hr⟩ | ⟨q, hq, hdst, hr⟩
    · rcases c.pending_setServer (Server.handle { s with engine := { s.engine with rx := rest } }
        c.storage.readEpochMetadata choice req).1 (Or.inl ⟨t, ht, hr⟩) with ⟨rfl, hr⟩ | hr
      · rw [Server.handle_rx] at hr
        exact Or.inl (hpending r hr)
      · exact Or.inl hr
    · rcases List.mem_append.mp hq with hq | hq
      · exact Or.inl (Or.inr ⟨q, hq, hdst, hr⟩)
      · obtain ⟨m, hm, rfl⟩ := List.mem_map.mp hq
        subst hdst
        exact Or.inr ⟨m.2, hm, hr⟩
  · cases h

/-! ## Answered storage calls -/

/-- The engine of `id` was waiting in a bootstrap. -/
structure Bootstrapped (c c' : Cluster E) (id : NodeId) (k : Core E id) (pc : NewReplicaBootstrap)
    (ok : Bool) : Prop where
  before : c.core id = some k
  task : k.task = .newReplicaBootstrap pc
  after : c'.core id = some
    { replica := (pc.resume ok k.replica c.storage).2
      task := .ofProgress .newReplicaBootstrap (pc.resume ok k.replica c.storage).1
      shutdown := k.shutdown }
  storage : c'.storage = c.storage
  commits : c'.commits = c.commits

/-- The engine of `id` was waiting in `initiate_gc`. -/
structure Initiated (c c' : Cluster E) (id : NodeId) (k : Core E id) (pc : InitiateGc E)
    (ok : Bool) :
    Prop where
  before : c.core id = some k
  task : k.task = .initiateGc pc
  after : c'.core id = some
    { replica := (pc.resume ok k.replica c.storage).2.1
      task := .ofProgress .initiateGc (pc.resume ok k.replica c.storage).1
      shutdown := k.shutdown }
  storage : c'.storage = (pc.resume ok k.replica c.storage).2.2
  commits : c'.commits = c.commits ++ committedBy ok pc

section after

variable {k k' : Core E id} {ok : Bool} (hk' : c'.core id = some k')
include hk'

theorem Bootstrapped.await_of_task {pc pc' : NewReplicaBootstrap} (h : Bootstrapped c c' id k pc ok)
    (htask : k'.task = .newReplicaBootstrap pc') :
    (pc.resume ok k.replica c.storage).1 = .await pc' := by
  rw [h.after] at hk'
  obtain rfl := Option.some.inj hk'
  simp only at htask
  cases hout : (pc.resume ok k.replica c.storage).1 with
  | await pc'' => rw [hout] at htask; cases htask; rfl
  | returned res => rw [hout] at htask; cases htask

theorem Bootstrapped.not_initiateGc {pc : NewReplicaBootstrap} (h : Bootstrapped c c' id k pc ok)
    (pc' : InitiateGc E) : k'.task ≠ .initiateGc pc' := by
  rw [h.after] at hk'
  obtain rfl := Option.some.inj hk'
  simp only
  cases (pc.resume ok k.replica c.storage).1 <;> simp [EngineTask.ofProgress]

omit [DecidableEq E] in
theorem Initiated.await_of_task {pc pc' : InitiateGc E} (h : Initiated c c' id k pc ok)
    (htask : k'.task = .initiateGc pc') : (pc.resume ok k.replica c.storage).1 = .await pc' := by
  rw [h.after] at hk'
  obtain rfl := Option.some.inj hk'
  simp only at htask
  cases hout : (pc.resume ok k.replica c.storage).1 with
  | await pc'' => rw [hout] at htask; cases htask; rfl
  | returned res => rw [hout] at htask; cases htask

omit [DecidableEq E] in
theorem Initiated.not_bootstrap {pc : InitiateGc E} (h : Initiated c c' id k pc ok)
    (pc' : NewReplicaBootstrap) : k'.task ≠ .newReplicaBootstrap pc' := by
  rw [h.after] at hk'
  obtain rfl := Option.some.inj hk'
  simp only
  cases (pc.resume ok k.replica c.storage).1 <;> simp [EngineTask.ofProgress]

end after

/-- What every step at `id` that is not a handled request leaves alone. -/
structure Undisturbed (c c' : Cluster E) (id : NodeId) : Prop where
  others : ∀ k, k ≠ id → c'.core k = c.core k
  history : c'.history = c.history
  pending : ∀ dst r, c'.Pending dst r → c.Pending dst r ∨ Local r

theorem step_resume {ok : Bool} (h : c.step (.resume id ok) = some c') :
    Undisturbed c c' id ∧
      ((∃ k pc, Bootstrapped c c' id k pc ok) ∨ ∃ k pc, Initiated c c' id k pc ok) := by
  obtain ⟨s, hs, h⟩ := Option.bind_eq_some_iff.mp h
  obtain ⟨⟨s', storage⟩, hres, h⟩ := Option.bind_eq_some_iff.mp h
  obtain rfl := Option.some.inj h
  have hcore := c.core_of_lookup hs
  rw [Server.resume] at hres
  have hframe : s'.engine.rx = s.engine.rx → Undisturbed c
      { c.setServer id s' with storage, commits := c.commits ++ committed s ok } id := fun hrx =>
    ⟨fun k hk => core_setServer_ne c s' hk, rfl, fun dst r hr => Or.inl (by
      rcases c.pending_setServer s' hr with ⟨rfl, hr⟩ | hr
      · exact Or.inl ⟨s, hs, hrx ▸ hr⟩
      · exact hr)⟩
  split at hres
  · cases hres
  · next pc htask =>
    obtain ⟨rfl, rfl⟩ := Prod.mk.inj (Option.some.inj hres)
    refine ⟨hframe rfl, Or.inl ⟨s.core, pc, hcore, htask, core_setServer_self c _, rfl, ?_⟩⟩
    simp only [committed, htask, List.append_nil]
  · next pc htask =>
    obtain ⟨rfl, rfl⟩ := Prod.mk.inj (Option.some.inj hres)
    refine ⟨hframe rfl, Or.inr ⟨s.core, pc, hcore, htask, core_setServer_self c _, rfl, ?_⟩⟩
    simp only [committed, htask]

omit [DecidableEq E] in
theorem resume_keeps (pc : InitiateGc E) (ok : Bool) (r : Replica E id) (st : Storage E) :
    (pc.resume ok r st).2.2.registrations = st.registrations ∧
      (pc.resume ok r st).2.2.finalDots = st.finalDots := by
  cases ok with
  | false => cases pc <;> exact ⟨rfl, rfl⟩
  | true =>
    cases pc with
    | claimGcIntent n previousVStable m0 =>
      rcases InitiateGc.resume_claim r st n previousVStable m0
        with ⟨-, result, heq⟩ | ⟨-, heq⟩ <;> rw [heq] <;>
        exact ⟨rfl, rfl⟩
    | liveMembersAgain n previousVStable m0 =>
      rcases InitiateGc.resume_again r st n previousVStable m0 with heq | heq
        <;> rw [heq] <;> exact ⟨rfl, rfl⟩
    | _ => exact ⟨rfl, rfl⟩

omit [DecidableEq E] in
/-- **What an answered call does to its replica**: it commits at the read of the final dots, and at
most sets the epoch anywhere else. -/
theorem resume_replica_cases (pc : InitiateGc E) (ok : Bool) (r : Replica E id) (st : Storage E) :
    (∃ n previousVStable m1, pc = .readFinalDots n previousVStable m1 ∧ ok = true ∧
        (pc.resume ok r st).1 =
          .await (InitiateGc.afterFinalDots r n previousVStable m1 st.readFinalDots).1 ∧
        (pc.resume ok r st).2.1 =
          (InitiateGc.afterFinalDots r n previousVStable m1 st.readFinalDots).2) ∨
      ((pc.resume ok r st).2.1 = r ∨ ∃ e, (pc.resume ok r st).2.1 = r.setEpoch e) ∧
        ∀ s m, (pc.resume ok r st).1 ≠ .await (.writeEpochState s m) := by
  cases ok with
  | false =>
    obtain ⟨result, hfailed⟩ := pc.resume_failed r st
    rw [hfailed]
    exact Or.inr ⟨Or.inl rfl, fun s m h => by cases h⟩
  | true =>
    cases pc with
    | readFinalDots n previousVStable m1 =>
      exact Or.inl ⟨n, previousVStable, m1, rfl, rfl, rfl, rfl⟩
    | writeEpochMetadata epochMetadata => exact Or.inr ⟨Or.inr ⟨_, rfl⟩, fun s m h => by cases h⟩
    | claimGcIntent n previousVStable m0 =>
      right
      rcases InitiateGc.resume_claim r st n previousVStable m0 with ⟨-, result, heq⟩ | ⟨-, heq⟩
      · rw [heq]
        exact ⟨Or.inl rfl, fun s m h => by cases h⟩
      · rw [heq]
        exact ⟨Or.inl rfl, fun s m h => by cases h⟩
    | liveMembersAgain n previousVStable m0 =>
      right
      rcases InitiateGc.resume_again r st n previousVStable m0 with heq | heq
      · rw [heq]
        exact ⟨Or.inl rfl, fun s m h => by cases h⟩
      · rw [heq]
        exact ⟨Or.inl rfl, fun s m h => by cases h⟩
    | _ => exact Or.inr ⟨Or.inl rfl, fun s m h => by cases h⟩

theorem bootstrap_replica_cases (pc : NewReplicaBootstrap) (ok : Bool) (r : Replica E id)
    (st : Storage E) :
    (pc.resume ok r st).2 = r ∨
      ∃ e, (pc.resume ok r st).2 = NewReplicaBootstrap.adopt r st.readEpochState e := by
  cases ok with
  | false => exact Or.inl rfl
  | true =>
    cases pc with
    | readEpochState e =>
      simp only [NewReplicaBootstrap.resume, if_true]
      split
      · exact Or.inr ⟨e, rfl⟩
      · exact Or.inl rfl
    | readGcIntent e =>
      simp only [NewReplicaBootstrap.resume, if_true]
      split <;> exact Or.inl rfl
    | pollGcIntent e next new =>
      simp only [NewReplicaBootstrap.resume, if_true]
      split <;> exact Or.inl rfl
    | _ => exact Or.inl rfl

omit [DecidableEq E] in
theorem resume_epochState (pc : InitiateGc E) (ok : Bool) (r : Replica E id) (st : Storage E) :
    (pc.resume ok r st).2.2.readEpochState = st.readEpochState ∨
      ∃ m, pc = .writeEpochState (pc.resume ok r st).2.2.readEpochState m := by
  cases ok with
  | false =>
    obtain ⟨result, hfailed⟩ := pc.resume_failed r st
    exact Or.inl (by rw [hfailed])
  | true =>
    cases pc with
    | writeEpochState s m => exact Or.inr ⟨m, rfl⟩
    | claimGcIntent e previousVStable m0 =>
      left
      rcases InitiateGc.resume_claim r st e previousVStable m0 with ⟨-, result, heq⟩ | ⟨-, heq⟩
      · rw [heq]
      · rw [heq]
        rfl
    | liveMembersAgain e previousVStable m0 =>
      left
      rcases InitiateGc.resume_again r st e previousVStable m0 with heq | heq
      · rw [heq]
      · rw [heq]
    | _ => exact Or.inl rfl

omit [DecidableEq E] in
theorem resume_commits (pc : InitiateGc E) (ok : Bool) (r : Replica E id) (st : Storage E) :
    (committedBy ok pc = [] ∧ (pc.resume ok r st).2.2.readEpochMetadata = st.readEpochMetadata) ∨
      ∃ m, pc = .writeEpochMetadata m ∧ committedBy ok pc = [m] ∧
        (pc.resume ok r st).2.2.readEpochMetadata = m := by
  cases ok with
  | false => cases pc <;> exact Or.inl ⟨rfl, rfl⟩
  | true =>
    cases pc with
    | writeEpochMetadata m => exact Or.inr ⟨m, rfl, rfl, rfl⟩
    | claimGcIntent n previousVStable m0 =>
      left
      refine ⟨rfl, ?_⟩
      rcases InitiateGc.resume_claim r st n previousVStable m0 with ⟨-, result, heq⟩ | ⟨-, heq⟩
      · rw [heq]
      · rw [heq]
        rfl
    | liveMembersAgain n previousVStable m0 =>
      left
      refine ⟨rfl, ?_⟩
      rcases InitiateGc.resume_again r st n previousVStable m0 with heq | heq
      · rw [heq]
      · rw [heq]
    | _ => exact Or.inl ⟨rfl, rfl⟩

/-! ## Coming and going -/

theorem step_start {gcReplica : Bool} (h : c.step (.start id gcReplica) = some c') :
    Undisturbed c c' id ∧ c.core id = none ∧
      c'.core id = some ⟨.new gcReplica, .newReplicaBootstrap .readEpochMetadata, .running⟩ ∧
      c'.storage = c.storage.register id ∧ c'.commits = c.commits := by
  rw [step] at h
  split at h
  · cases h
  · next hid =>
    obtain rfl := Option.some.inj h
    have hnone : c.nodes.lookup id = none := AList.lookup_eq_none.mpr hid
    refine ⟨⟨fun k hk => core_setServer_ne c _ hk, rfl, fun dst r hr => Or.inl ?_⟩,
      by rw [core, hnone, Option.map_none], core_setServer_self c _, rfl, rfl⟩
    rcases c.pending_setServer _ hr with ⟨rfl, hr⟩ | hr
    · cases hr
    · exact hr

theorem step_heartbeat (h : c.step (.heartbeat id) = some c') :
    (∃ k, c.core id = some k) ∧ c' = { c with storage := c.storage.register id } := by
  obtain ⟨s, hs, h⟩ := Option.bind_eq_some_iff.mp h
  exact ⟨⟨s.core, c.core_of_lookup hs⟩, (Option.some.inj h).symm⟩

theorem step_beginShutdown (h : c.step (.beginShutdown id) = some c') :
    Undisturbed c c' id ∧ c'.storage = c.storage ∧ c'.commits = c.commits ∧
      ∃ k, c.core id = some k ∧ k.shutdown = .running ∧
        c'.core id = some { k with shutdown := .awaitFinalDot } := by
  obtain ⟨s, hs, h⟩ := Option.bind_eq_some_iff.mp h
  split at h
  · next hrun =>
    obtain rfl := Option.some.inj h
    refine ⟨⟨fun k hk => core_setServer_ne c _ hk, rfl, fun dst r hr => ?_⟩, rfl, rfl, s.core,
      c.core_of_lookup hs, hrun, core_setServer_self c _⟩
    rcases c.pending_setServer _ hr with ⟨rfl, hr⟩ | hr
    · rcases List.mem_append.mp hr with hr | hr
      · exact Or.inl (Or.inl ⟨s, hs, hr⟩)
      · rw [List.mem_singleton] at hr
        subst hr
        exact Or.inr trivial
    · exact Or.inl hr
  · cases h

theorem step_continueShutdown {ok : Bool} (h : c.step (.continueShutdown id ok) = some c') :
    Undisturbed c c' id ∧ c'.commits = c.commits ∧ ∃ k, c.core id = some k ∧
      ((∃ finalDot, k.shutdown = .putFinalDot finalDot ∧
          if ok then
            c'.core id = some { k with shutdown := .deleteRegistration } ∧
              c'.storage = c.storage.putFinalDot id finalDot
          else c'.core id = some { k with shutdown := .abort } ∧ c'.storage = c.storage) ∨
        (k.shutdown = .deleteRegistration ∧ c'.core id = some { k with shutdown := .abort } ∧
          c'.storage = if ok then c.storage.deleteRegistration id else c.storage) ∨
        (k.shutdown = .abort ∧ c'.core id = none ∧ c'.storage = c.storage)) := by
  obtain ⟨s, hs, h⟩ := Option.bind_eq_some_iff.mp h
  have hset : ∀ (shutdown : Shutdown) (st : Storage E),
      Undisturbed c { c.setServer id { s with shutdown } with storage := st } id :=
          fun shutdown st =>
    ⟨fun k hk => core_setServer_ne c _ hk, rfl, fun dst r hr => Or.inl (by
      rcases c.pending_setServer _ hr with ⟨rfl, hr⟩ | hr
      · exact Or.inl ⟨s, hs, hr⟩
      · exact hr)⟩
  rw [continueShutdown] at h
  split at h
  · cases h
  · cases h
  · next finalDot hphase =>
    split at h
    · next hok =>
      obtain rfl := Option.some.inj h
      refine ⟨hset _ _, rfl, s.core, c.core_of_lookup hs, Or.inl ⟨finalDot, hphase, ?_⟩⟩
      rw [if_pos hok]
      exact ⟨core_setServer_self c _, rfl⟩
    · next hok =>
      obtain rfl := Option.some.inj h
      refine ⟨hset _ c.storage, rfl, s.core, c.core_of_lookup hs, Or.inl ⟨finalDot, hphase, ?_⟩⟩
      rw [if_neg hok]
      exact ⟨core_setServer_self c _, rfl⟩
  · next hphase =>
    obtain rfl := Option.some.inj h
    exact ⟨hset _ _, rfl, s.core, c.core_of_lookup hs,
      Or.inr (Or.inl ⟨hphase, core_setServer_self c _, rfl⟩)⟩
  · next hphase =>
    obtain rfl := Option.some.inj h
    refine ⟨⟨fun k hk => ?_, rfl, fun dst r hr => Or.inl ?_⟩, rfl, s.core, c.core_of_lookup hs,
      Or.inr (Or.inr ⟨hphase, ?_, rfl⟩)⟩
    · rw [core, core, AList.lookup_erase_ne hk]
    · rcases hr with ⟨t, ht, hr⟩ | hnet
      · by_cases hd : dst = id
        · subst hd
          rw [AList.lookup_erase] at ht
          cases ht
        · rw [AList.lookup_erase_ne hd] at ht
          exact Or.inl ⟨t, ht, hr⟩
      · exact Or.inr hnet
    · rw [core, AList.lookup_erase, Option.map_none]

/-! ## Steps seen from one server -/

/-- What one step does to the server `id`: it leaves it alone, works off a request, answers the
storage call that the engine waits for, starts it, moves its shutdown on, or ends it. -/
inductive CoreStep (c c' : Cluster E) (id : NodeId) : Label E → Prop
  | same {l : Label E} (hsame : c'.core id = c.core id) : CoreStep c c' id l
  | handled {choice : Option NodeId} {s : Server E id} {req : CrdtEngineRequest E}
      (h : Handled c c' id choice s req) : CoreStep c c' id (.handle id choice)
  | bootstrapped {ok : Bool} {k : Core E id} {pc : NewReplicaBootstrap}
      (h : Bootstrapped c c' id k pc ok) : CoreStep c c' id (.resume id ok)
  | initiated {ok : Bool} {k : Core E id} {pc : InitiateGc E} (h : Initiated c c' id k pc ok) :
      CoreStep c c' id (.resume id ok)
  | started {gcReplica : Bool} (hnone : c.core id = none)
      (hafter : c'.core id =
        some ⟨.new gcReplica, .newReplicaBootstrap .readEpochMetadata, .running⟩) :
      CoreStep c c' id (.start id gcReplica)
  | shutdown {l : Label E} {k : Core E id} {phase : Shutdown} (hbefore : c.core id = some k)
      (hafter : c'.core id = some { k with shutdown := phase }) (hend : k.shutdown ≠ .abort)
      (hput : ∀ d, phase ≠ .putFinalDot d) : CoreStep c c' id l
  | gone {ok : Bool} {k : Core E id} (hbefore : c.core id = some k) (hend : k.shutdown = .abort)
      (hafter : c'.core id = none) : CoreStep c c' id (.continueShutdown id ok)

theorem coreStep_of_others {l : Label E} {x : NodeId}
    (hothers : ∀ k, k ≠ x → c'.core k = c.core k) (hself : CoreStep c c' x l) (id : NodeId) :
    CoreStep c c' id l := by
  by_cases hx : id = x
  · subst hx
    exact hself
  · exact .same (hothers id hx)

/-- **Every step is one of these to every server.** -/
theorem step_core {l : Label E} (h : c.step l = some c') (id : NodeId) : CoreStep c c' id l := by
  cases l with
  | request | receive | duplicate | drop | connect | disconnect =>
    have hq : Quiet _ c c' := step_quiet (by exact trivial) h
    exact .same (hq.core id)
  | handle x choice =>
    obtain ⟨s, req, hh⟩ := step_handle h
    exact coreStep_of_others hh.others (.handled hh) id
  | resume x ok =>
    obtain ⟨hframe, ⟨k, pc, hb⟩ | ⟨k, pc, hi⟩⟩ := step_resume h
    · exact coreStep_of_others hframe.others (.bootstrapped hb) id
    · exact coreStep_of_others hframe.others (.initiated hi) id
  | start x gcReplica =>
    obtain ⟨hframe, hnone, hafter, -, -⟩ := step_start h
    exact coreStep_of_others hframe.others (.started hnone hafter) id
  | heartbeat x =>
    obtain ⟨-, rfl⟩ := step_heartbeat h
    exact .same rfl
  | beginShutdown x =>
    obtain ⟨hframe, -, -, k, hk, hrunning, hafter⟩ := step_beginShutdown h
    refine coreStep_of_others hframe.others (.shutdown hk hafter ?_ fun d => nofun) id
    rw [hrunning]
    exact nofun
  | continueShutdown x ok =>
    obtain ⟨hframe, -, k, hk, hcase⟩ := step_continueShutdown h
    refine coreStep_of_others hframe.others ?_ id
    rcases hcase with ⟨finalDot, hphase, hcase⟩ | ⟨hphase, hafter, -⟩ | ⟨hphase, hafter, -⟩
    · have hend : k.shutdown ≠ .abort := by
        rw [hphase]
        exact nofun
      split at hcase
      · exact .shutdown hk hcase.1 hend fun d => nofun
      · exact .shutdown hk hcase.1 hend fun d => nofun
    · refine .shutdown hk hafter ?_ fun d => nofun
      rw [hphase]
      exact nofun
    · exact .gone hk hphase hafter

/-- **What a step does to the final dots on record**: none, or the one that a shutdown puts. -/
theorem step_finalDots {l : Label E} (h : c.step l = some c') :
    c'.storage.finalDots = c.storage.finalDots ∨
      ∃ x k f, c.core x = some k ∧ k.shutdown = .putFinalDot f ∧ c'.history = c.history ∧
        c'.storage = c.storage.putFinalDot x f := by
  cases l with
  | request | receive | duplicate | drop | connect | disconnect =>
    have hq : Quiet _ c c' := step_quiet (by exact trivial) h
    exact Or.inl (by rw [hq.storage])
  | handle x choice =>
    obtain ⟨s, req, hh⟩ := step_handle h
    exact Or.inl (by rw [hh.storage])
  | resume x ok =>
    obtain ⟨-, ⟨k, pc, hb⟩ | ⟨k, pc, hi⟩⟩ := step_resume h
    · exact Or.inl (by rw [hb.storage])
    · exact Or.inl (by rw [hi.storage, (resume_keeps pc ok k.replica c.storage).2])
  | start x gcReplica =>
    obtain ⟨-, -, -, hst, -⟩ := step_start h
    exact Or.inl (by rw [hst, Storage.register_finalDots])
  | heartbeat x =>
    obtain ⟨-, rfl⟩ := step_heartbeat h
    exact Or.inl (Storage.register_finalDots _ _)
  | beginShutdown x =>
    obtain ⟨-, hst, -⟩ := step_beginShutdown h
    exact Or.inl (by rw [hst])
  | continueShutdown x ok =>
    obtain ⟨hframe, -, k, hk, hcase⟩ := step_continueShutdown h
    rcases hcase with ⟨finalDot, hput, hcase⟩ | ⟨-, -, hst⟩ | ⟨-, -, hst⟩
    · split at hcase
      · exact Or.inr ⟨x, k, finalDot, hk, hput, hframe.history, hcase.2⟩
      · exact Or.inl (by rw [hcase.2])
    · left
      rw [hst]
      split <;> rfl
    · exact Or.inl (by rw [hst])

/-! ## Steps seen from the GC protocol -/

/-- No bootstrap and no `initiate_gc` moves on, and the epoch objects stay as they are; either may
begin. -/
structure NoGcProgress (c c' : Cluster E) : Prop where
  tasks : ∀ id k', c'.core id = some k' →
    (∃ k, c.core id = some k ∧ k.task = k'.task) ∨ k'.task = .initiateGc .readEpochMetadata ∨
      (c.core id = none ∧ k'.task = .newReplicaBootstrap .readEpochMetadata)
  epochMetadata : c'.storage.epochMetadata = c.storage.epochMetadata
  epochState : c'.storage.epochState = c.storage.epochState
  gcIntents : c'.storage.gcIntents = c.storage.gcIntents
  commits : c'.commits = c.commits

omit [DecidableEq E] in
theorem tasks_of_others (hothers : ∀ k, k ≠ id → c'.core k = c.core k)
    (hself : ∀ k', c'.core id = some k' →
      (∃ k, c.core id = some k ∧ k.task = k'.task) ∨ k'.task = .initiateGc .readEpochMetadata ∨
        (c.core id = none ∧ k'.task = .newReplicaBootstrap .readEpochMetadata)) :
    ∀ x k', c'.core x = some k' →
      (∃ k, c.core x = some k ∧ k.task = k'.task) ∨ k'.task = .initiateGc .readEpochMetadata ∨
        (c.core x = none ∧ k'.task = .newReplicaBootstrap .readEpochMetadata) := by
  intro x k' hk'
  by_cases hx : x = id
  · subst hx
    exact hself k' hk'
  · rw [hothers x hx] at hk'
    exact Or.inl ⟨k', hk', rfl⟩

theorem handle_task (s : Server E id) (m : EpochMetadata) (choice : Option NodeId)
    (req : CrdtEngineRequest E) :
    (s.handle m choice req).1.core.task = s.engine.task ∨
      req = .initiateGc ∧ (s.handle m choice req).1.core.task = .initiateGc .readEpochMetadata := by
  cases req with
  | deltaResponse from_ crdtId payload km =>
    simp only [Server.handle, CrdtEngine.handle, CrdtEngine.serverDelta, Server.core]
    split
    · exact Or.inl rfl
    · cases km <;> exact Or.inl rfl
  | deltaRequest from_ crdtId k =>
    simp only [Server.handle, CrdtEngine.handle, CrdtEngine.serverPullRequest, Server.core]
    split <;> exact Or.inl rfl
  | initiateGc => exact Or.inr ⟨rfl, rfl⟩
  | _ => exact Or.inl rfl

section handled

variable {choice : Option NodeId} {s : Server E id} {req : CrdtEngineRequest E} {k' : Core E id}
  (h : Handled c c' id choice s req) (hk' : c'.core id = some k')
include h hk'

theorem Handled.initiateGc_of_task {pc : InitiateGc E} (htask : k'.task = .initiateGc pc) :
    req = .initiateGc ∧ pc = .readEpochMetadata := by
  rw [h.after] at hk'
  obtain rfl := Option.some.inj hk'
  rcases handle_task s c.storage.readEpochMetadata choice req with heq | ⟨hreq, heq⟩
  · rw [heq, h.idle] at htask
    cases htask
  · rw [heq] at htask
    cases htask
    exact ⟨hreq, rfl⟩

theorem Handled.not_bootstrap (pc : NewReplicaBootstrap) : k'.task ≠ .newReplicaBootstrap pc := by
  intro htask
  rw [h.after] at hk'
  obtain rfl := Option.some.inj hk'
  rcases handle_task s c.storage.readEpochMetadata choice req with heq | ⟨-, heq⟩
  · rw [heq, h.idle] at htask
    cases htask
  · rw [heq] at htask
    cases htask

end handled

/-- **Every step answers a call of a running `initiate_gc` or of a running bootstrap, or is no
progress of GC.** -/
theorem step_gc_cases {l : Label E} (h : c.step l = some c') :
    NoGcProgress c c' ∨
      ∃ id ok, l = .resume id ok ∧ Undisturbed c c' id ∧
        ((∃ k pc, Bootstrapped c c' id k pc ok) ∨ ∃ k pc, Initiated c c' id k pc ok) := by
  cases l with
  | request | receive | duplicate | drop | connect | disconnect =>
    have hq : Quiet _ c c' := step_quiet (by exact trivial) h
    refine Or.inl ⟨fun id k' hk' => Or.inl ⟨k', by rw [← hq.core id, hk'], rfl⟩, ?_, ?_, ?_,
      hq.commits⟩ <;> rw [hq.storage]
  | handle id choice =>
    obtain ⟨s, req, hh⟩ := step_handle h
    refine Or.inl ⟨tasks_of_others hh.others fun k' hk' => ?_, ?_, ?_, ?_, hh.commits⟩
    · rw [hh.after] at hk'
      obtain rfl := Option.some.inj hk'
      rcases handle_task s c.storage.readEpochMetadata choice req with htask | ⟨-, htask⟩
      · exact Or.inl ⟨s.core, hh.before, htask.symm⟩
      · exact Or.inr (Or.inl htask)
    all_goals rw [hh.storage]
  | resume id ok => exact Or.inr ⟨id, ok, rfl, step_resume h⟩
  | start id gcReplica =>
    obtain ⟨hframe, hnone, hafter, hst, hcommits⟩ := step_start h
    refine Or.inl ⟨tasks_of_others hframe.others fun k' hk' => ?_, ?_, ?_, ?_, hcommits⟩
    · rw [hafter] at hk'
      obtain rfl := Option.some.inj hk'
      exact Or.inr (Or.inr ⟨hnone, rfl⟩)
    all_goals rw [hst]; simp
  | heartbeat id =>
    obtain ⟨-, rfl⟩ := step_heartbeat h
    refine Or.inl ⟨fun x k' hk' => Or.inl ⟨k', hk', rfl⟩, ?_, ?_, ?_, rfl⟩ <;> simp
  | beginShutdown id =>
    obtain ⟨hframe, hst, hcommits, k, hk, -, hafter⟩ := step_beginShutdown h
    refine Or.inl ⟨tasks_of_others hframe.others fun k' hk' => ?_, ?_, ?_, ?_, hcommits⟩
    · rw [hafter] at hk'
      obtain rfl := Option.some.inj hk'
      exact Or.inl ⟨k, hk, rfl⟩
    all_goals rw [hst]
  | continueShutdown id ok =>
    obtain ⟨hframe, hcommits, k, hk, hcase⟩ := step_continueShutdown h
    have hself : ∀ phase, c'.core id = some { k with shutdown := phase } →
        ∀ k', c'.core id = some k' →
        (∃ k, c.core id = some k ∧ k.task = k'.task) ∨ k'.task = .initiateGc .readEpochMetadata ∨
          (c.core id = none ∧ k'.task = .newReplicaBootstrap .readEpochMetadata) := by
      intro phase hafter k' hk'
      rw [hafter] at hk'
      obtain rfl := Option.some.inj hk'
      exact Or.inl ⟨k, hk, rfl⟩
    rcases hcase with ⟨finalDot, -, hcase⟩ | ⟨-, hafter, hst⟩ | ⟨-, hafter, hst⟩
    · split at hcase
      · obtain ⟨hafter, hst⟩ := hcase
        exact Or.inl ⟨tasks_of_others hframe.others (hself _ hafter),
          by rw [hst]; rfl, by rw [hst]; rfl,
          by rw [hst]; rfl, hcommits⟩
      · obtain ⟨hafter, hst⟩ := hcase
        exact Or.inl ⟨tasks_of_others hframe.others (hself _ hafter), by rw [hst], by rw [hst],
          by rw [hst], hcommits⟩
    · refine Or.inl ⟨tasks_of_others hframe.others (hself _ hafter), ?_, ?_, ?_, hcommits⟩
      all_goals rw [hst]; split <;> rfl
    · refine Or.inl ⟨tasks_of_others hframe.others fun k' hk' => ?_, ?_, ?_, ?_, hcommits⟩
      · rw [hafter] at hk'
        cases hk'
      all_goals rw [hst]

/-- What a step leaves of the running `initiate_gc` calls when none of them moves on. -/
structure SameCalls (c c' : Cluster E) : Prop where
  calls : ∀ id k' pc, c'.core id = some k' → k'.task = .initiateGc pc →
    pc = .readEpochMetadata ∨ ∃ k, c.core id = some k ∧ k.task = .initiateGc pc
  epochMetadata : c'.storage.epochMetadata = c.storage.epochMetadata
  epochState : c'.storage.epochState = c.storage.epochState
  gcIntents : c'.storage.gcIntents = c.storage.gcIntents
  commits : c'.commits = c.commits

omit [DecidableEq E] in
theorem NoGcProgress.sameCalls (h : NoGcProgress c c') : SameCalls c c' where
  calls id k' pc hk' htask := by
    rcases h.tasks id k' hk' with ⟨k, hk, heq⟩ | heq | ⟨-, heq⟩
    · exact Or.inr ⟨k, hk, heq.trans htask⟩
    · rw [htask] at heq
      cases heq
      exact Or.inl rfl
    · rw [htask] at heq
      cases heq
  epochMetadata := h.epochMetadata
  epochState := h.epochState
  gcIntents := h.gcIntents
  commits := h.commits

theorem Bootstrapped.sameCalls {k : Core E id} {pc : NewReplicaBootstrap} {ok : Bool}
    (h : Bootstrapped c c' id k pc ok) (hframe : Undisturbed c c' id) : SameCalls c c' where
  calls x k' pc' hk' htask := by
    by_cases hx : x = id
    · subst hx
      exact absurd htask (h.not_initiateGc hk' pc')
    · rw [hframe.others x hx] at hk'
      exact Or.inr ⟨k', hk', htask⟩
  epochMetadata := by rw [h.storage]
  epochState := by rw [h.storage]
  gcIntents := by rw [h.storage]
  commits := h.commits

end Cluster

end ExperimentalCrdt
