import ExperimentalCrdt.Cluster.Data
import ExperimentalCrdt.Cluster.Dots
import ExperimentalCrdt.Engine.Answers

/-!
# What a step does to a server

Every step leaves a server alone, or changes its queue and its shutdown in one of a few ways
(`QueueMove`). The name of the replicated set and the role of the replica stay as they are, whatever
happens (`step_server`), and so does the order of the vector: its dot counts all events of its owner
(`regular_of_reachable`), and its effective map has no zeros (`positive_of_reachable`).
-/

namespace ExperimentalCrdt

open Transition (Reachable)

variable {E : Type} {id : NodeId}

def CrdtEngineRequest.isDeregistrationState : CrdtEngineRequest E → Bool
  | .deregistrationState => true
  | _ => false

/-- What a step does to the queue and to the shutdown of a server that stays. -/
inductive QueueMove (s s' : Server E id) : Prop where
  | enqueued (reqs : List (CrdtEngineRequest E))
      (hreqs : reqs.countP CrdtEngineRequest.isDeregistrationState = 0)
      (hrx : s'.engine.rx = s.engine.rx ++ reqs) (hphase : s'.shutdown = s.shutdown)
  | handled (req : CrdtEngineRequest E) (hreq : req.isDeregistrationState = false)
      (hrx : s.engine.rx = req :: s'.engine.rx) (hphase : s'.shutdown = s.shutdown)
  | asked (hrunning : s.shutdown = .running)
      (hrx : s'.engine.rx = s.engine.rx ++ [.deregistrationState])
      (hphase : s'.shutdown = .awaitFinalDot)
  | answered (hrx : s.engine.rx = .deregistrationState :: s'.engine.rx)
      (hphase : s'.shutdown = .putFinalDot s.engine.finalDot)
  | proceeded (hbefore : s.shutdown ≠ .running ∧ s.shutdown ≠ .awaitFinalDot)
      (hrx : s'.engine.rx = s.engine.rx)
      (hphase : s'.shutdown = .deleteRegistration ∨ s'.shutdown = .abort)

/-- What a step does to a server that stays. -/
structure ServerMove (s s' : Server E id) : Prop where
  queue : QueueMove s s'
  crdtId : s'.engine.crdtId = s.engine.crdtId
  gcReplica : s'.engine.replica.gc.gcReplica = s.engine.replica.gc.gcReplica

theorem QueueMove.stay {s s' : Server E id} (hrx : s'.engine.rx = s.engine.rx)
    (hphase : s'.shutdown = s.shutdown) :
    QueueMove s s' :=
  .enqueued [] rfl (by rw [hrx, List.append_nil]) hphase

theorem isDeregistrationState_toRequest (req : LocalRequest E) :
    req.toRequest.isDeregistrationState = false := by
  cases req <;> rfl

theorem countP_handleReceivedEnvelope (envelope : Envelope E) :
    (handleReceivedEnvelope envelope).countP CrdtEngineRequest.isDeregistrationState = 0 := by
  rw [List.countP_eq_zero]
  intro req hreq
  have hlocal := Cluster.not_local_of_received hreq
  cases req with
  | deregistrationState => exact absurd trivial hlocal
  | _ => exact Bool.false_ne_true

/-! ## Ordered vectors -/

namespace DotVersionVector

/-- The dot counts all events of its owner. -/
def Ordered (d : DotVersionVector) : Prop := d.effectiveCounter d.dot.nodeId = d.dot.counter

variable {d : DotVersionVector}

theorem ordered_new (nodeId : NodeId) : (new nodeId).Ordered := effectiveCounter_new nodeId nodeId

theorem Ordered.comparedCounter (h : d.Ordered) (n : NodeId) :
    d.comparedCounter n = d.effectiveCounter n := by
  by_cases hn : n = d.dot.nodeId
  · subst hn
    rw [DotVersionVector.comparedCounter, if_pos rfl]
    exact h.symm
  · rw [DotVersionVector.comparedCounter, effectiveCounter, if_neg hn, if_neg hn]

theorem Ordered.shrink (h : d.Ordered) {d' : DotVersionVector} (hdot : d'.dot = d.dot)
    (hle : ∀ n, d'.effectiveCounter n ≤ d.effectiveCounter n) : d'.Ordered := by
  have hown := hle d'.dot.nodeId
  have hlow := d'.dotCounter_le_effectiveCounter
  unfold Ordered at h ⊢
  rw [hdot] at hown hlow ⊢
  omega

theorem Ordered.event (h : d.Ordered) : d.event.Ordered := by
  unfold Ordered at h ⊢
  rw [event_dot_nodeId, event_dot_counter, effectiveCounter_event, if_pos rfl]
  omega

theorem Ordered.merge (h : d.Ordered) (d' : DotVersionVector) : (d.merge d').Ordered := by
  have hdot : (d.merge d').dot.counter = max d.dot.counter (d'.effectiveCounter d.dot.nodeId) := by
    have hcompared := comparedCounter_merge d d.dot.nodeId d'
    rw [DotVersionVector.comparedCounter, DotVersionVector.comparedCounter,
      merge_dot_nodeId, if_pos rfl,
      if_pos rfl] at hcompared
    exact hcompared
  unfold Ordered at h ⊢
  rw [merge_dot_nodeId, effectiveCounter_merge, h, hdot]

/-! ## Effective maps without zeros -/

/-- The effective map mentions a node only with a counter. -/
def Positive (d : DotVersionVector) : Prop := ∀ n ∈ d.effectiveMap, 0 < d.effectiveCounter n

theorem Positive.lookup_effectiveMap (h : d.Positive) (n : NodeId) :
    d.effectiveMap.lookup n = if 0 < d.effectiveCounter n then some (d.effectiveCounter n)
      else none := by
  have hcounter := d.counterAt_effectiveMap n
  unfold counterAt at hcounter
  cases hlookup : d.effectiveMap.lookup n with
  | some v =>
    rw [hlookup, Option.getD_some] at hcounter
    subst hcounter
    rw [if_pos (h n (AList.mem_of_lookup hlookup))]
  | none =>
    rw [hlookup, Option.getD_none] at hcounter
    rw [← hcounter, if_neg (Nat.lt_irrefl 0)]

theorem Positive.entries_eq_nil_iff (h : d.Positive) :
    d.effectiveMap.entries = [] ↔ ∀ n, d.effectiveCounter n = 0 := by
  constructor
  · intro hnil n
    rw [← counterAt_effectiveMap, show d.effectiveMap = ∅ from AList.ext hnil, counterAt_empty]
  · intro hzero
    have hempty : d.effectiveMap = ∅ := by
      refine AList.eq_empty_of_forall_notMem fun n hn => ?_
      have hpos := h n hn
      rw [hzero] at hpos
      exact Nat.lt_irrefl 0 hpos
    rw [hempty]
    rfl

theorem Positive.of_context (h : d.Positive) {d' : DotVersionVector}
    (hmem : ∀ n ∈ d'.context, n ∈ d.effectiveMap ∧ d'.effectiveCounter n = d.effectiveCounter n) :
    d'.Positive := by
  intro n hn
  rcases (d'.mem_effectiveMap n).mp hn with hctx | ⟨rfl, hpos⟩
  · rw [(hmem n hctx).2]
    exact h n (hmem n hctx).1
  · exact Nat.lt_of_lt_of_le hpos d'.dotCounter_le_effectiveCounter

theorem positive_new (nodeId : NodeId) : (new nodeId).Positive := by
  intro n hn
  rcases ((new nodeId).mem_effectiveMap n).mp hn with hctx | ⟨-, hpos⟩
  · exact absurd hctx (AList.notMem_empty n)
  · exact absurd hpos (Nat.lt_irrefl 0)

theorem Positive.event (h : d.Positive) : d.event.Positive := by
  intro n hn
  rw [effectiveCounter_event]
  split
  · omega
  · next hown =>
    rcases (d.event.mem_effectiveMap n).mp hn with hctx | ⟨hn', -⟩
    · exact h n ((d.mem_effectiveMap n).mpr ((d.mem_event_context n).mp hctx))
    · exact absurd hn' hown

theorem Positive.merge (h : d.Positive) {d' : DotVersionVector} (h' : d'.Positive) :
    (d.merge d').Positive := by
  intro n hn
  rw [effectiveCounter_merge]
  rcases ((d.merge d').mem_effectiveMap n).mp hn with hctx | ⟨rfl, hpos⟩
  · rcases mem_merge_context d d' hctx with hctx | hctx
    · exact lt_max_of_lt_left (h n ((d.mem_effectiveMap n).mpr (Or.inl hctx)))
    · exact lt_max_of_lt_right (h' n hctx)
  · rw [← effectiveCounter_merge]
    exact Nat.lt_of_lt_of_le hpos (d.merge d').dotCounter_le_effectiveCounter

end DotVersionVector

namespace Replica

variable (r : Replica E id)

theorem Positive.forgetNodes {r : Replica E id} (h : r.dvv.Positive) (obsolete : HashSet NodeId) :
    (r.forgetNodes obsolete).dvv.Positive := by
  refine h.of_context fun n hn => ?_
  have hkept : n ∉ obsolete ∧ n ∈ r.dvv.context := by
    rw [r.forgetNodes_context] at hn
    by_cases hmem : n ∈ obsolete.keys
    · rw [← AList.lookup_isSome, lookup_removeNodes, if_pos hmem] at hn
      cases hn
    · rw [← AList.lookup_isSome, lookup_removeNodes, if_neg hmem, AList.lookup_isSome] at hn
      exact ⟨fun h => hmem (AList.mem_keys.mp h), hn⟩
  exact ⟨(r.dvv.mem_effectiveMap n).mpr (Or.inl hkept.2),
    r.effectiveCounter_forgetNodes obsolete hkept.1⟩

theorem Ordered.forgetNodes {r : Replica E id} (h : r.dvv.Ordered) (obsolete : HashSet NodeId) :
    (r.forgetNodes obsolete).dvv.Ordered :=
  h.shrink (r.forgetNodes_dot obsolete) (r.effectiveCounter_forgetNodes_le obsolete)

theorem observeEpochChange_gcReplica (m : EpochMetadata) :
    (r.observeEpochChange m).gc.gcReplica = r.gc.gcReplica := by
  unfold observeEpochChange
  split
  · rfl
  · rw [forgetNodes_gcReplica]
    rfl

theorem resume_gcReplica (pc : InitiateGc E) (ok : Bool) (st : Storage E) :
    (pc.resume ok r st).2.1.gc.gcReplica = r.gc.gcReplica := by
  rcases Cluster.resume_replica_cases pc ok r st with
    ⟨n, previousVStable, m1, -, -, -, hr⟩ | ⟨hr | ⟨e, hr⟩, -⟩
  · rw [hr, InitiateGc.afterFinalDots]
    split
    · rfl
    · exact r.forgetNodes_gcReplica _
  · rw [hr]
  · rw [hr]
    rfl

theorem bootstrap_gcReplica [DecidableEq E] (pc : NewReplicaBootstrap) (ok : Bool)
    (st : Storage E) :
    (pc.resume ok r st).2.gc.gcReplica = r.gc.gcReplica := by
  rcases Cluster.bootstrap_replica_cases pc ok r st with hr | ⟨e, hr⟩
  · rw [hr]
  · rw [hr]
    rfl

end Replica

namespace Server

variable [DecidableEq E] (s : Server E id) (m : EpochMetadata) (choice : Option NodeId)
  (req : CrdtEngineRequest E)

theorem handle_crdtId : (s.handle m choice req).1.engine.crdtId = s.engine.crdtId := by
  cases req with
  | deltaResponse fromNode crdtId payload km =>
    simp only [handle, CrdtEngine.handle, CrdtEngine.serverDelta]
    split
    · rfl
    · cases km <;> rfl
  | deltaRequest fromNode crdtId K =>
    simp only [handle, CrdtEngine.handle, CrdtEngine.serverPullRequest]
    split <;> rfl
  | _ => rfl

theorem handle_gcReplica :
    (s.handle m choice req).1.engine.replica.gc.gcReplica = s.engine.replica.gc.gcReplica := by
  cases req with
  | deltaResponse fromNode crdtId payload km =>
    simp only [handle, CrdtEngine.handle, CrdtEngine.serverDelta]
    split
    · rfl
    · cases km <;> rfl
  | deltaRequest fromNode crdtId K =>
    simp only [handle, CrdtEngine.handle, CrdtEngine.serverPullRequest]
    split <;> rfl
  | observeEpochChange => exact s.engine.replica.observeEpochChange_gcReplica m
  | _ => rfl

end Server

namespace Cluster

variable {c c' : Cluster E}

theorem move_setServer {x : NodeId} {t t' : Server E x} (ht : c.nodes.lookup x = some t)
    {s' : Server E id} (hs' : (c.setServer x t').nodes.lookup id = some s')
    (hmove : ServerMove t t') :
    ∃ s, c.nodes.lookup id = some s ∧ ServerMove s s' := by
  by_cases hid : id = x
  · subst hid
    rw [setServer, AList.lookup_insert] at hs'
    cases hs'
    exact ⟨t, ht, hmove⟩
  · rw [setServer, AList.lookup_insert_ne hid] at hs'
    exact ⟨s', hs', .stay rfl rfl, rfl, rfl⟩

variable [DecidableEq E]

theorem move_handle (s : Server E id) (m : EpochMetadata) (choice : Option NodeId)
    (req : CrdtEngineRequest E) (rest : List (CrdtEngineRequest E))
    (hrx : s.engine.rx = req :: rest) :
    ServerMove s
      (Server.handle { s with engine := { s.engine with rx := rest } } m choice req).1 := by
  have hqueue : s.engine.rx =
      req :: (Server.handle { s with engine := { s.engine with rx := rest } }
          m choice req).1.engine.rx := by
    rw [hrx, Server.handle_rx]
  refine ⟨?_, Server.handle_crdtId _ m choice req, Server.handle_gcReplica _ m choice req⟩
  cases req with
  | deregistrationState => exact .answered hqueue rfl
  | _ => exact .handled _ rfl hqueue rfl

theorem move_resume {t t' : Server E id} {ok : Bool} {st st' : Storage E}
    (hres : t.resume ok st = some (t', st')) : ServerMove t t' := by
  rw [Server.resume] at hres
  split at hres
  · cases hres
  · next pc _ =>
    obtain ⟨rfl, -⟩ := Prod.mk.inj (Option.some.inj hres)
    exact ⟨.stay rfl rfl, rfl, t.engine.replica.bootstrap_gcReplica pc ok st⟩
  · next pc _ =>
    obtain ⟨rfl, -⟩ := Prod.mk.inj (Option.some.inj hres)
    exact ⟨.stay rfl rfl, rfl, t.engine.replica.resume_gcReplica pc ok st⟩

/-- **The step lemma** for one server: it was there, or it is the one that starts. -/
theorem step_server {l : Label E} (hstep : c.step l = some c') {s' : Server E id}
    (hs' : c'.nodes.lookup id = some s') :
    (∃ s, c.nodes.lookup id = some s ∧ ServerMove s s') ∨
      ∃ gcReplica, l = .start id gcReplica ∧ s' = .new gcReplica := by
  cases l with
  | request x req =>
    obtain ⟨t, ht, hstep⟩ := Option.bind_eq_some_iff.mp hstep
    split at hstep
    · obtain rfl := Option.some.inj hstep
      refine Or.inl (move_setServer ht hs' ⟨.enqueued [req.toRequest] ?_ rfl rfl, rfl, rfl⟩)
      rw [List.countP_cons_of_neg (by simp [isDeregistrationState_toRequest])]
      rfl
    · cases hstep
  | receive i =>
    obtain ⟨p, hp, hstep⟩ := Option.bind_eq_some_iff.mp hstep
    obtain ⟨t, ht, hstep⟩ := Option.bind_eq_some_iff.mp hstep
    split at hstep
    · obtain rfl := Option.some.inj hstep
      exact Or.inl
        (move_setServer ht hs'
          ⟨.enqueued _ (countP_handleReceivedEnvelope p.envelope) rfl rfl, rfl, rfl⟩)
    · cases hstep
  | duplicate i =>
    obtain ⟨p, hp, hstep⟩ := Option.bind_eq_some_iff.mp hstep
    obtain rfl := Option.some.inj hstep
    exact Or.inl ⟨s', hs', .stay rfl rfl, rfl, rfl⟩
  | drop i =>
    rw [step] at hstep
    split at hstep
    · obtain rfl := Option.some.inj hstep
      exact Or.inl ⟨s', hs', .stay rfl rfl, rfl, rfl⟩
    · cases hstep
  | handle x choice =>
    obtain ⟨t, ht, hstep⟩ := Option.bind_eq_some_iff.mp hstep
    split at hstep
    · next req rest htask hrx =>
      obtain rfl := Option.some.inj hstep
      exact Or.inl
        (move_setServer ht hs' (move_handle t c.storage.readEpochMetadata choice req rest hrx))
    · cases hstep
  | resume x ok =>
    obtain ⟨t, ht, hstep⟩ := Option.bind_eq_some_iff.mp hstep
    obtain ⟨⟨t', storage⟩, hres, hstep⟩ := Option.bind_eq_some_iff.mp hstep
    obtain rfl := Option.some.inj hstep
    exact Or.inl (move_setServer ht hs' (move_resume hres))
  | connect x peer gcReplica | disconnect x peer =>
    obtain ⟨t, ht, hstep⟩ := Option.bind_eq_some_iff.mp hstep
    obtain rfl := Option.some.inj hstep
    exact Or.inl (move_setServer ht hs' ⟨.stay rfl rfl, rfl, rfl⟩)
  | start x gcReplica =>
    rw [step] at hstep
    split at hstep
    · cases hstep
    · obtain rfl := Option.some.inj hstep
      have hs' : (c.setServer x (.new gcReplica)).nodes.lookup id = some s' := hs'
      by_cases hid : id = x
      · subst hid
        rw [setServer, AList.lookup_insert] at hs'
        exact Or.inr ⟨gcReplica, rfl, (Option.some.inj hs').symm⟩
      · rw [setServer, AList.lookup_insert_ne hid] at hs'
        exact Or.inl ⟨s', hs', .stay rfl rfl, rfl, rfl⟩
  | heartbeat x =>
    obtain ⟨t, ht, hstep⟩ := Option.bind_eq_some_iff.mp hstep
    obtain rfl := Option.some.inj hstep
    exact Or.inl ⟨s', hs', .stay rfl rfl, rfl, rfl⟩
  | beginShutdown x =>
    obtain ⟨t, ht, hstep⟩ := Option.bind_eq_some_iff.mp hstep
    split at hstep
    · next hrunning =>
      obtain rfl := Option.some.inj hstep
      exact Or.inl (move_setServer ht hs' ⟨.asked hrunning rfl rfl, rfl, rfl⟩)
    · cases hstep
  | continueShutdown x ok =>
    obtain ⟨t, ht, hstep⟩ := Option.bind_eq_some_iff.mp hstep
    rw [continueShutdown] at hstep
    split at hstep
    · cases hstep
    · cases hstep
    · next finalDot hphase =>
      split at hstep
      · obtain rfl := Option.some.inj hstep
        exact Or.inl
          (move_setServer ht hs' ⟨.proceeded (by simp [hphase]) rfl (Or.inl rfl), rfl, rfl⟩)
      · obtain rfl := Option.some.inj hstep
        exact Or.inl
          (move_setServer ht hs' ⟨.proceeded (by simp [hphase]) rfl (Or.inr rfl), rfl, rfl⟩)
    · next hphase =>
      obtain rfl := Option.some.inj hstep
      exact Or.inl
        (move_setServer ht hs' ⟨.proceeded (by simp [hphase]) rfl (Or.inr rfl), rfl, rfl⟩)
    · obtain rfl := Option.some.inj hstep
      by_cases hid : id = x
      · subst hid
        rw [AList.lookup_erase] at hs'
        cases hs'
      · rw [AList.lookup_erase_ne hid] at hs'
        exact Or.inl ⟨s', hs', .stay rfl rfl, rfl, rfl⟩

/-! ## Every engine of every run -/

theorem orderedRules : DataRules (fun _ (r : Replica E _) => r.dvv.Ordered)
    (fun _ => True) (fun _ => True) where
  new id _ := DotVersionVector.ordered_new id
  gc _ _ _ h := h
  clientOperation _ _ _ _ _ h := h.event
  mergeDelta _ _ delta h _ := h.merge delta.causalContext
  deltaSince _ _ _ _ := trivial
  adopt _ _ _ _ h _ := h.merge _
  nothing := trivial

/-- What holds of every engine: it works under the name that `run` gives it, and its vector is
ordered. -/
structure Regular (c : Cluster E) : Prop where
  named : ∀ id (s : Server E id), c.nodes.lookup id = some s → s.engine.crdtId = Server.crdtId
  data : DataInv (fun _ (r : Replica E _) => r.dvv.Ordered) (fun _ => True) (fun _ => True) c

omit [DecidableEq E] in
theorem Regular.ordered (h : Regular c) {s : Server E id} (hs : c.nodes.lookup id = some s) :
    s.engine.replica.dvv.Ordered :=
  h.data.replicas id s.core (c.core_of_lookup hs)

/-- **The step lemma.** -/
theorem Regular.step (h : Regular c) {l : Label E} (hstep : c.step l = some c') : Regular c' := by
  refine ⟨fun id s' hs' => ?_, ?_⟩
  · rcases step_server hstep hs' with ⟨s, hs, hmove⟩ | ⟨gcReplica, -, rfl⟩
    · exact hmove.crdtId.trans (h.named id s hs)
    · rfl
  · refine h.data.step orderedRules hstep (fun id choice k _ hk _ => ?_)
      fun id k n previousVStable m1 _ hk _ => ?_
    · unfold Replica.observeEpochChange
      split
      · exact h.data.replicas id k hk
      · have hsame : ((k.replica.performGc c.storage.readEpochMetadata.vStable).setEpoch
            c.storage.readEpochMetadata.epoch).dvv.Ordered := h.data.replicas id k hk
        exact Replica.Ordered.forgetNodes hsame _
    · refine ⟨?_, fun _ _ _ => trivial⟩
      unfold InitiateGc.afterFinalDots
      dsimp only
      split
      · exact h.data.replicas id k hk
      · exact Replica.Ordered.forgetNodes (h.data.replicas id k hk) _

theorem regular_of_reachable {ok : Cluster E → Label E → Prop} {members : HashMap NodeId Bool}
    (h : Reachable Cluster.step ok (fixed members) c) : Regular c := by
  refine h.invariant ⟨fun id s hs => ?_, dataInv_fixed orderedRules members⟩
      fun s l s' _ hs _ hstep =>
    hs.step hstep
  rw [fixed, AList.lookup_mapWithKey] at hs
  obtain ⟨gcReplica, -, rfl⟩ := Option.map_eq_some_iff.mp hs
  rfl

theorem positiveRules : DataRules (fun _ (r : Replica E _) => r.dvv.Positive)
    (fun delta => delta.causalContext.Positive)
    (fun epochState => ∀ n ∈ epochState.initiatorClock,
      0 < counterAt epochState.initiatorClock n) where
  new id _ := DotVersionVector.positive_new id
  gc _ _ _ h := h
  clientOperation _ _ _ _ _ h := h.event
  mergeDelta _ _ _ h hdelta := h.merge hdelta
  deltaSince id r K h := by
    refine h.of_context fun n hn => ⟨hn, ?_⟩
    exact r.crdt.effectiveCounter_causalContext K r.dvv n
  adopt id r epochState currentEpoch h hstate := by
    refine h.merge fun n hn => ?_
    rw [DotVersionVector.effectiveCounter_frontierDvv]
    rcases ((frontierDvv id epochState.initiatorClock).mem_effectiveMap n).mp hn
      with hctx | ⟨rfl, hpos⟩
    · exact hstate n hctx
    · exact hpos
  nothing n hn := absurd hn (AList.notMem_empty n)

abbrev Positive (c : Cluster E) : Prop :=
  DataInv (fun _ (r : Replica E _) => r.dvv.Positive) (fun delta => delta.causalContext.Positive)
    (fun epochState => ∀ n ∈ epochState.initiatorClock, 0 < counterAt epochState.initiatorClock n) c

theorem Positive.step (h : Positive c) {l : Label E} (hstep : c.step l = some c') :
    Positive c' := by
  refine DataInv.step positiveRules h hstep (fun id choice k _ hk _ => ?_)
    fun id k n previousVStable m1 _ hk _ => ?_
  · unfold Replica.observeEpochChange
    split
    · exact h.replicas id k hk
    · have hsame : ((k.replica.performGc c.storage.readEpochMetadata.vStable).setEpoch
          c.storage.readEpochMetadata.epoch).dvv.Positive := h.replicas id k hk
      exact Replica.Positive.forgetNodes hsame _
  · unfold InitiateGc.afterFinalDots
    dsimp only
    split
    · exact ⟨h.replicas id k hk, fun s m heq => by cases heq⟩
    · have hprepared :
          (InitiateGc.prepareCommit k.replica n (k.replica.gc.computeStableTimestamp id m1
          c.storage.readFinalDots k.replica.dvv.effectiveMap).1
            (k.replica.gc.computeStableTimestamp id m1
          c.storage.readFinalDots k.replica.dvv.effectiveMap).2).1.dvv.Positive :=
        Replica.Positive.forgetNodes (h.replicas id k hk) _
      refine ⟨hprepared, fun s m heq => ?_⟩
      cases heq
      intro x hx
      have hpos := hprepared x hx
      rw [← DotVersionVector.counterAt_effectiveMap] at hpos
      exact hpos

theorem positive_of_reachable {ok : Cluster E → Label E → Prop} {members : HashMap NodeId Bool}
    (h : Reachable Cluster.step ok (fixed members) c) : Positive c :=
  h.invariant (dataInv_fixed positiveRules members) fun _ _ _ _ hs _ hstep => hs.step hstep

end Cluster

end ExperimentalCrdt
