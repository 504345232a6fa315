import ExperimentalCrdt.Cluster.Steps
import ExperimentalCrdt.Gc.Epoch

/-!
# Who knows what while nobody departs

A row of a matrix clock is what some replica once advertised, or what a GC replica took over from
another one. As long as nobody departs no final dot is written, a frontier finds no obsolete node,
and no vector ever forgets anything (`Grows`). So a row stays a lower bound of what its replica
knows, in a matrix clock as well as in a message (`Rows`), and a frontier is known to every replica
that was listed for it (`Rows.afterFinalDots_cases`, `Rows.knows_of_below`).
-/

namespace ExperimentalCrdt

variable {E : Type} {id : NodeId}

namespace GcCoordinator

theorem row_updateMatrixClock (self : GcCoordinator) {km mc : MatrixClock} {p : NodeId}
    {ctx : CausalContext} (hmc : (self.updateMatrixClock km).matrixClock = some mc)
    (hrow : mc.lookup p = some ctx) :
    ∃ old, self.matrixClock = some old ∧
      (old.lookup p = some ctx ∨ km.lookup p = some ctx ∨
        ∃ own incoming, old.lookup p = some own ∧ km.lookup p = some incoming ∧
          ctx = vvJoin incoming own) := by
  obtain ⟨old, hold, rfl⟩ := Option.map_eq_some_iff.mp hmc
  refine ⟨old, hold, ?_⟩
  rw [AList.lookup_foldl_upsert km joinRow old p] at hrow
  cases hin : km.lookup p with
  | none =>
    rw [hin] at hrow
    exact Or.inl hrow
  | some incoming =>
    rw [hin] at hrow
    cases hown : old.lookup p with
    | none =>
      rw [hown] at hrow
      exact Or.inr (Or.inl hrow)
    | some own =>
      rw [hown] at hrow
      exact Or.inr (Or.inr ⟨own, incoming, rfl, rfl, (Option.some.inj hrow).symm⟩)

theorem row_getKnowledgeMatrix (self : GcCoordinator) (registry : PeerRegistry) {km : MatrixClock}
    {p : NodeId} {ctx : CausalContext} (hkm : self.getKnowledgeMatrix registry = some km)
    (hrow : km.lookup p = some ctx) : ∃ mc, self.matrixClock = some mc ∧
    mc.lookup p = some ctx := by
  obtain ⟨mc, hmc, rfl⟩ := Option.map_eq_some_iff.mp hkm
  refine ⟨mc, hmc, ?_⟩
  -- each round of the loop adds a row of the matrix clock, or none
  have hloop : ∀ f : MatrixClock → NodeId → MatrixClock,
      (∀ km node q ctx, (f km node).lookup q = some ctx → km.lookup q = some ctx ∨
        mc.lookup q = some ctx) →
      ∀ (l : List NodeId) (acc : MatrixClock),
        (∀ q ctx, acc.lookup q = some ctx → mc.lookup q = some ctx) →
        ∀ q ctx, (l.foldl f acc).lookup q = some ctx → mc.lookup q = some ctx := by
    intro f hf l
    induction l with
    | nil => exact fun acc hacc => hacc
    | cons node l ih =>
      intro acc hacc
      exact ih _ fun q ctx' hq => (hf acc node q ctx' hq).elim (hacc q ctx') id
  refine hloop _ (fun km node q ctx' hq => ?_) _ ∅ (fun q ctx' hq => ?_) p ctx hrow
  · split at hq
    · next row hnode =>
      rw [AList.lookup_insert_eq] at hq
      split at hq
      · next heq =>
        rw [heq, hnode]
        exact Or.inr hq
      · exact Or.inl hq
    · exact Or.inl hq
  · rw [AList.lookup_empty] at hq
    cases hq

end GcCoordinator

theorem request_of_pushVersionVector {registry : PeerRegistry} {choice : Option NodeId}
    {crdtId : String} {gcReplica : Bool} {knowledge : CausalContext} {dst : NodeId}
    {envelope : Envelope E} {r : CrdtEngineRequest E}
    (hsent : (dst, envelope) ∈ PushPull.pushVersionVector registry choice id
      crdtId gcReplica knowledge)
    (hr : r ∈ handleReceivedEnvelope envelope) : r = .deltaRequest id crdtId knowledge := by
  cases choice with
  | none => cases hsent
  | some peer =>
    simp only [PushPull.pushVersionVector, PushPull.sendToPeer] at hsent
    split at hsent
    · obtain ⟨-, rfl⟩ := Prod.mk.inj (List.mem_singleton.mp hsent)
      exact List.mem_singleton.mp hr
    · cases hsent

theorem request_of_respondToPullRequest {registry : PeerRegistry} {fromNode : NodeId}
    {crdtId : String} {payload : Option (OrSetDelta E)} {gcReplica : Bool} {km : Option MatrixClock}
    {knowledge : Option CausalContext} {dst : NodeId} {envelope : Envelope E}
    {r : CrdtEngineRequest E}
    (hsent : (dst, envelope) ∈
      PushPull.respondToPullRequest registry fromNode crdtId id payload gcReplica km knowledge)
    (hr : r ∈ handleReceivedEnvelope envelope) :
    (∃ vc, knowledge = some vc ∧ r = .deltaRequest id crdtId vc) ∨
      dst = fromNode ∧ ∃ delta, payload = some delta ∧ r = .deltaResponse id crdtId delta km := by
  have hsend : ∀ e : Envelope E, (dst, envelope) ∈ PushPull.sendToPeer registry fromNode e →
      dst = fromNode ∧ envelope = e := fun e he => by
    rw [PushPull.sendToPeer] at he
    split at he
    · exact Prod.mk.inj (List.mem_singleton.mp he)
    · cases he
  cases payload with
  | none =>
    cases knowledge with
    | none => cases hsent
    | some vc =>
      obtain ⟨-, rfl⟩ := hsend _ hsent
      exact Or.inl ⟨vc, rfl, List.mem_singleton.mp hr⟩
  | some delta =>
    cases knowledge with
    | none =>
      obtain ⟨hdst, rfl⟩ := hsend _ hsent
      exact Or.inr ⟨hdst, delta, rfl, List.mem_singleton.mp hr⟩
    | some vc =>
      obtain ⟨hdst, rfl⟩ := hsend _ hsent
      rcases List.mem_cons.mp hr with hr | hr
      · exact Or.inr ⟨hdst, delta, rfl, hr⟩
      · refine Or.inl ⟨vc, rfl, ?_⟩
        simp only at hr
        split at hr
        · cases hr
        · exact List.mem_singleton.mp hr

namespace Server

variable [DecidableEq E] (s : Server E id) (m : EpochMetadata) (choice : Option NodeId)
  (req : CrdtEngineRequest E)

/-- **What a handled request sends**: its own new knowledge, or an answer to the requester. -/
theorem sent_cases {dst : NodeId} {envelope : Envelope E} {r : CrdtEngineRequest E}
    (hsent : (dst, envelope) ∈ (s.handle m choice req).2)
    (hr : r ∈ handleReceivedEnvelope envelope) :
    (∃ crdtId, r = .deltaRequest id crdtId
      (s.handle m choice req).1.core.replica.dvv.effectiveMap) ∨
      ∃ crdtId remoteKnowledge km, req = .deltaRequest dst crdtId remoteKnowledge ∧
        r = .deltaResponse id crdtId
          (s.engine.replica.crdt.deltaSince remoteKnowledge s.engine.replica.dvv) km ∧
        ∀ matrix, km = some matrix →
          (s.handle m choice req).1.core.replica.gc.getKnowledgeMatrix s.registry =
            some matrix := by
  cases req with
  | doPullRound => exact Or.inl ⟨_, request_of_pushVersionVector hsent hr⟩
  | clientOperation op => exact Or.inl ⟨_, request_of_pushVersionVector hsent hr⟩
  | deltaResponse fromNode crdtId payload km =>
    simp only [handle, CrdtEngine.handle, CrdtEngine.serverDelta, core] at hsent ⊢
    split at hsent
    · cases hsent
    · next hcrdt =>
      rw [if_neg hcrdt]
      exact Or.inl ⟨_, request_of_pushVersionVector hsent hr⟩
  | deltaRequest fromNode crdtId remoteKnowledge =>
    simp only [handle, CrdtEngine.handle, CrdtEngine.serverPullRequest, core] at hsent ⊢
    split at hsent
    · cases hsent
    · next hcrdt =>
      rw [if_neg hcrdt]
      rcases request_of_respondToPullRequest hsent hr
        with ⟨vc, hvc, rfl⟩ | ⟨rfl, delta, hdelta, rfl⟩
      · refine Or.inl ⟨s.engine.crdtId, ?_⟩
        simp only [CrdtEngine.ourKnowledgeRequest] at hvc
        split at hvc
        · cases hvc
        · rw [← Option.some.inj hvc]
      · simp only [CrdtEngine.deltaPayload] at hdelta
        split at hdelta
        · obtain rfl := not_not.mp hcrdt
          rw [← Option.some.inj hdelta]
          refine Or.inr ⟨_, remoteKnowledge, _, rfl, rfl, fun matrix hmatrix => ?_⟩
          split at hmatrix
          · exact hmatrix
          · cases hmatrix
        · cases hdelta
  | deregistrationState | initiateGc | observeEpochChange => cases hsent

/-- **What a handled request does to the replica.** -/
theorem handle_replica_cases :
    ((s.handle m choice req).1.core.replica = s.engine.replica ∧ Cluster.performed s req = []) ∨
      (∃ op, req = .clientOperation op ∧
        (s.handle m choice req).1.core.replica =
          (s.engine.clientOperation s.registry choice op).1.replica) ∨
      (∃ fromNode crdtId remoteKnowledge, req = .deltaRequest fromNode crdtId remoteKnowledge ∧
        (s.handle m choice req).1.core.replica =
          (s.engine.learnMatrix ((∅ : MatrixClock).insert fromNode remoteKnowledge)).replica) ∨
      (∃ fromNode crdtId payload km, req = .deltaResponse fromNode crdtId payload km ∧
        (s.handle m choice req).1.core.replica =
          ((km.elim s.engine s.engine.learnMatrix).mergeDelta payload).replica) ∨
      (req = .observeEpochChange ∧
        (s.handle m choice req).1.core.replica = s.engine.replica.observeEpochChange m) := by
  cases req with
  | doPullRound | deregistrationState | initiateGc => exact Or.inl ⟨rfl, rfl⟩
  | clientOperation op => exact Or.inr (Or.inl ⟨op, rfl, rfl⟩)
  | deltaRequest fromNode crdtId remoteKnowledge =>
    simp only [handle, CrdtEngine.handle, CrdtEngine.serverPullRequest, core]
    split
    · exact Or.inl ⟨rfl, rfl⟩
    · exact Or.inr (Or.inr (Or.inl ⟨_, _, _, rfl, rfl⟩))
  | deltaResponse fromNode crdtId payload km =>
    simp only [handle, CrdtEngine.handle, CrdtEngine.serverDelta, core]
    split
    · exact Or.inl ⟨rfl, rfl⟩
    · exact Or.inr (Or.inr (Or.inr (Or.inl ⟨_, _, _, _, rfl, rfl⟩)))
  | observeEpochChange => exact Or.inr (Or.inr (Or.inr (Or.inr ⟨rfl, rfl⟩)))

omit [DecidableEq E] in
theorem observeEpochChange_dot (r : Replica E id) :
    (r.observeEpochChange m).dvv.dot = r.dvv.dot := by
  rw [Replica.observeEpochChange]
  split
  · rfl
  · rw [Replica.forgetNodes_dot]
    rfl

theorem dotCounter_le_handle :
    s.engine.replica.dvv.dot.counter ≤ (s.handle m choice req).1.core.replica.dvv.dot.counter := by
  rcases s.handle_replica_cases m choice req with
    ⟨hr, -⟩ | ⟨op, -, hr⟩ | ⟨from_, crdtId, K, -, hr⟩ |
    ⟨from_, crdtId, payload, km, -, hr⟩ | ⟨-, hr⟩
  · rw [hr]
  · rw [hr]
    exact Nat.le_succ _
  · rw [hr]
    exact Nat.le_refl _
  · rw [hr]
    have hdvv : (km.elim s.engine s.engine.learnMatrix).replica.dvv = s.engine.replica.dvv := by
      cases km <;> rfl
    simp only [CrdtEngine.mergeDelta, hdvv]
    exact DotVersionVector.dotCounter_le_merge _ _
  · rw [hr, observeEpochChange_dot]

end Server

/-- Nobody departs by this label. -/
def Label.stays : Label E → Bool
  | .beginShutdown _ => false
  | .continueShutdown _ _ => false
  | _ => true

/-- The replica has completed its bootstrap. -/
def Core.Serves (k : Core E id) : Prop := ∀ pc, k.task ≠ .newReplicaBootstrap pc

/-- `v` lies below the own vector, if the replica is listed, and below the rows of the others
listed. -/
def Core.Below (k : Core E id) (members : NodeId → Prop) (v : CausalContext) : Prop :=
  ∀ p, members p → ∃ ctx,
    (if p = id then some k.replica.dvv.effectiveMap
      else (k.replica.gc.matrixClock.getD ∅).lookup p) = some ctx ∧
      ∀ n, counterAt v n ≤ counterAt ctx n

/-- The metadata that a call is about to publish. -/
def InitiateGc.metadata : InitiateGc E → Option EpochMetadata
  | .writeEpochState _ epochMetadata => some epochMetadata
  | .writeEpochMetadata epochMetadata => some epochMetadata
  | _ => none

namespace Cluster

/-- `p` serves, and knows at least what `ctx` says. -/
def Knows (c : Cluster E) (p : NodeId) (ctx : CausalContext) : Prop :=
  ∃ k, c.core p = some k ∧ k.Serves ∧ ∀ n, counterAt ctx n ≤ k.replica.dvv.effectiveCounter n

/-- Nobody leaves and nobody forgets. -/
def Grows (c c' : Cluster E) : Prop :=
  ∀ p k, c.core p = some k → ∃ k', c'.core p = some k' ∧ (k.Serves → k'.Serves) ∧
    ∀ n, k.replica.dvv.effectiveCounter n ≤ k'.replica.dvv.effectiveCounter n

/-- Every row is known to its node. -/
def Truthful (c : Cluster E) (mc : MatrixClock) : Prop :=
  ∀ p ctx, mc.lookup p = some ctx → c.Knows p ctx

/-- What a message says about anybody's knowledge is so. -/
def TruthfulRequest (c : Cluster E) : CrdtEngineRequest E → Prop
  | .deltaRequest fromNode _ remoteKnowledge => c.Knows fromNode remoteKnowledge
  | .deltaResponse _ _ _ km => ∀ matrix, km = some matrix → c.Truthful matrix
  | _ => True

variable {c c' : Cluster E}

theorem Grows.refl (h : ∀ p, c'.core p = c.core p) : Grows c c' := fun p k hk =>
  ⟨k, (h p).trans hk, fun hs => hs, fun _ => Nat.le_refl _⟩

theorem Grows.of_others (hothers : ∀ x, x ≠ id → c'.core x = c.core x)
    (hself : ∀ k, c.core id = some k → ∃ k', c'.core id = some k' ∧ (k.Serves → k'.Serves) ∧
      ∀ n, k.replica.dvv.effectiveCounter n ≤ k'.replica.dvv.effectiveCounter n) : Grows c c' := by
  intro p k hk
  by_cases hp : p = id
  · subst hp
    exact hself k hk
  · exact ⟨k, (hothers p hp).trans hk, fun hs => hs, fun _ => Nat.le_refl _⟩

section grows

variable (hgrow : Grows c c')
include hgrow

theorem Knows.grow {p : NodeId} {ctx : CausalContext} (h : c.Knows p ctx) : c'.Knows p ctx := by
  obtain ⟨k, hk, hserves, hle⟩ := h
  obtain ⟨k', hk', hserves', hle'⟩ := hgrow p k hk
  exact ⟨k', hk', hserves' hserves, fun n => Nat.le_trans (hle n) (hle' n)⟩

theorem Truthful.grow {mc : MatrixClock} (h : c.Truthful mc) : c'.Truthful mc :=
  fun p ctx hrow => (h p ctx hrow).grow hgrow

theorem TruthfulRequest.grow {req : CrdtEngineRequest E} (h : c.TruthfulRequest req) :
    c'.TruthfulRequest req := by
  cases req with
  | deltaRequest fromNode crdtId remoteKnowledge => exact Knows.grow hgrow h
  | deltaResponse fromNode crdtId payload km => exact fun matrix hm => (h matrix hm).grow hgrow
  | _ => trivial

end grows

theorem truthfulRequest_of_local {req : CrdtEngineRequest E} (h : Local req) :
    c.TruthfulRequest req := by
  cases req with
  | deltaRequest fromNode crdtId remoteKnowledge => exact h.elim
  | deltaResponse fromNode crdtId payload km => exact h.elim
  | _ => trivial

theorem Truthful.update {self : GcCoordinator} {km mc : MatrixClock}
    (hself : ∀ old, self.matrixClock = some old → c.Truthful old) (hkm : c.Truthful km)
    (hmc : (self.updateMatrixClock km).matrixClock = some mc) : c.Truthful mc := by
  intro p ctx hrow
  obtain ⟨old, hold, hcase⟩ := self.row_updateMatrixClock hmc hrow
  rcases hcase with hrow | hrow | ⟨own, incoming, hown, hincoming, rfl⟩
  · exact hself old hold p ctx hrow
  · exact hkm p ctx hrow
  · obtain ⟨k, hk, hserves, hle⟩ := hself old hold p own hown
    obtain ⟨k2, hk2, -, hle2⟩ := hkm p incoming hincoming
    rw [hk] at hk2
    obtain rfl := Option.some.inj hk2
    refine ⟨k, hk, hserves, fun n => ?_⟩
    rw [counterAt_vvJoin]
    exact Nat.max_le.mpr ⟨hle2 n, hle n⟩

structure Rows (c : Cluster E) : Prop where
  registered : ∀ id k, c.core id = some k → id ∈ c.storage.registrations
  stayed : c.storage.finalDots = []
  obsolete_stored : c.storage.readEpochMetadata.obsoleteDots = ∅
  obsolete_calls : ∀ id k pc m, c.core id = some k → k.task = .initiateGc pc →
    pc.metadata = some m → m.obsoleteDots = ∅
  listed : ∀ id k n previousVStable m1 mc p, c.core id = some k →
    k.task = .initiateGc (.readFinalDots n previousVStable m1) →
      k.replica.gc.matrixClock = some mc → p ∈ mc → p ∈ m1
  rows : ∀ id k mc, c.core id = some k → k.replica.gc.matrixClock = some mc → c.Truthful mc
  pending : ∀ dst req, c.Pending dst req → c.TruthfulRequest req

theorem Rows.notMem_obsolete (h : Rows c) (n : NodeId) :
    n ∉ c.storage.readEpochMetadata.obsoleteDots := by
  rw [h.obsolete_stored]
  exact AList.notMem_empty n

theorem Rows.of_step (h : Rows c) (hgrow : Grows c c')
    (hothers : ∀ x, x ≠ id → c'.core x = c.core x)
    (hreg : ∀ x, x ∈ c.storage.registrations → x ∈ c'.storage.registrations)
    (hstay : c'.storage.finalDots = c.storage.finalDots)
    (hstored : c'.storage.readEpochMetadata.obsoleteDots = ∅)
    (hself : ∀ k', c'.core id = some k' →
      id ∈ c'.storage.registrations ∧
      (∀ pc m, k'.task = .initiateGc pc → pc.metadata = some m → m.obsoleteDots = ∅) ∧
      (∀ n previousVStable m1 mc p, k'.task = .initiateGc (.readFinalDots n previousVStable m1) →
        k'.replica.gc.matrixClock = some mc → p ∈ mc → p ∈ m1) ∧
      ∀ mc, k'.replica.gc.matrixClock = some mc → c'.Truthful mc)
    (hpending : ∀ dst req, c'.Pending dst req → c.Pending dst req ∨ c'.TruthfulRequest req) :
    Rows c' := by
  refine ⟨fun x k hk => ?_, hstay.trans h.stayed, hstored, fun x k pc m hk htask hm => ?_,
    fun x k n previousVStable m1 mc p hk htask hmc hp => ?_, fun x k mc hk hmc => ?_,
      fun dst req hreq => ?_⟩
  · by_cases hx : x = id
    · subst hx
      exact (hself k hk).1
    · rw [hothers x hx] at hk
      exact hreg x (h.registered x k hk)
  · by_cases hx : x = id
    · subst hx
      exact (hself k hk).2.1 pc m htask hm
    · rw [hothers x hx] at hk
      exact h.obsolete_calls x k pc m hk htask hm
  · by_cases hx : x = id
    · subst hx
      exact (hself k hk).2.2.1 n previousVStable m1 mc p htask hmc hp
    · rw [hothers x hx] at hk
      exact h.listed x k n previousVStable m1 mc p hk htask hmc hp
  · by_cases hx : x = id
    · subst hx
      exact (hself k hk).2.2.2 mc hmc
    · rw [hothers x hx] at hk
      exact (h.rows x k mc hk hmc).grow hgrow
  · rcases hpending dst req hreq with hold | hnew
    · exact (h.pending dst req hold).grow hgrow
    · exact hnew

/-! ## Frontiers -/

theorem serves_of_initiateGc {k : Core E id} {pc : InitiateGc E} (h : k.task = .initiateGc pc) :
    k.Serves :=
  fun pc' h' => by rw [h] at h'; cases h'

theorem Rows.knows_of_below (h : Rows c) {k : Core E id} {members : NodeId → Prop}
    {v : CausalContext} (hk : c.core id = some k) (hserves : k.Serves) (hb : k.Below members v)
    {p : NodeId} (hp : members p) :
    c.Knows p v := by
  obtain ⟨ctx, hctx, hle⟩ := hb p hp
  by_cases hid : p = id
  · subst hid
    rw [if_pos rfl] at hctx
    obtain rfl := Option.some.inj hctx
    refine ⟨k, hk, hserves, fun m => ?_⟩
    rw [← DotVersionVector.counterAt_effectiveMap]
    exact hle m
  · rw [if_neg hid] at hctx
    cases hmc : k.replica.gc.matrixClock with
    | none =>
      rw [hmc, Option.getD_none, AList.lookup_empty] at hctx
      cases hctx
    | some mc =>
      rw [hmc, Option.getD_some] at hctx
      obtain ⟨kp, hkp, hpserves, hknows⟩ := h.rows id k mc hk hmc p ctx hctx
      exact ⟨kp, hkp, hpserves, fun m => Nat.le_trans (hle m) (hknows m)⟩

theorem Rows.stable_below (h : Rows c) {k : Core E id} {n : Nat} {previousVStable : CausalContext}
    {m1 : List NodeId} (hk : c.core id = some k)
    (htask : k.task = .initiateGc (.readFinalDots n previousVStable m1))
    {out : CausalContext × HashSet NodeId}
    (hout : out = k.replica.gc.computeStableTimestamp id m1 c.storage.readFinalDots
      k.replica.dvv.effectiveMap) :
    out.2 = ∅ ∧ (out.1 = ∅ ∨ k.Below (· ∈ m1) out.1) := by
  rcases k.replica.gc.computeStableTimestamp_cases id m1 c.storage.readFinalDots
    k.replica.dvv.effectiveMap with hnone | ⟨mc, vLive, hmc, hstable⟩
  · rw [hout, hnone]
    exact ⟨rfl, Or.inl rfl⟩
  · rw [← hout] at hstable
    refine ⟨AList.eq_empty_of_forall_notMem fun p hp => ?_, Or.inr fun p hp => ?_⟩
    · obtain ⟨⟨hmentioned, hnot⟩, hfinal⟩ := (hstable.obsolete p).mp hp
      have hdots : c.storage.readFinalDots = ∅ := by
        rw [Storage.readFinalDots, h.stayed]
        rfl
      rw [hdots, AList.lookup_empty] at hfinal
      have hlive : p ∉ vLive := AList.lookup_eq_none.mp hfinal.symm
      exact hnot (h.listed id k n previousVStable m1 mc p hk htask hmc
        (hmentioned.resolve_right hlive))
    · obtain ⟨ctx, hctx, hbelow⟩ := hstable.member p hp
      refine ⟨ctx, ?_, (hstable.frontier.trans hbelow).le⟩
      rw [hmc, Option.getD_some]
      exact hctx

/-- **What the read of the final dots leads to while nobody departs**: no progress, or a commit
under a frontier below all listed rows. -/
theorem Rows.afterFinalDots_cases (h : Rows c) {k : Core E id} {n : Nat}
    {previousVStable : CausalContext} {m1 : List NodeId} (hk : c.core id = some k)
    (htask : k.task = .initiateGc (.readFinalDots n previousVStable m1)) :
    InitiateGc.afterFinalDots k.replica n previousVStable m1 c.storage.readFinalDots =
        (.releaseNoProgress n, k.replica) ∨
      ∃ v, k.Below (· ∈ m1) v ∧
        InitiateGc.afterFinalDots k.replica n previousVStable m1 c.storage.readFinalDots =
          (.writeEpochState ⟨n, k.replica.dvv.effectiveMap,
            (k.replica.performGc v).crdt.fullState k.replica.dvv⟩ ⟨n, v, ∅⟩,
              k.replica.performGc v) := by
  obtain ⟨hobsolete, hbelow⟩ := h.stable_below hk htask rfl
  rw [InitiateGc.afterFinalDots]
  split
  · exact Or.inl rfl
  · next hprogress =>
    refine Or.inr ⟨_, hbelow.resolve_left fun hempty => hprogress ?_, ?_⟩
    · rw [hempty]
      exact vvLeq_iff.mpr fun k => by rw [counterAt_empty]; exact Nat.zero_le _
    · rw [hobsolete]
      rfl

theorem Rows.initiateGc_replica_cases (h : Rows c) {k : Core E id} {pc : InitiateGc E} (ok : Bool)
    (hk : c.core id = some k) (htask : k.task = .initiateGc pc) :
    (pc.resume ok k.replica c.storage).2.1 = k.replica ∨
      (∃ e, (pc.resume ok k.replica c.storage).2.1 = k.replica.setEpoch e) ∨
      ∃ n previousVStable m1 v, pc = .readFinalDots n previousVStable m1 ∧ k.Below (· ∈ m1) v ∧
        (pc.resume ok k.replica c.storage).2.1 = k.replica.performGc v := by
  rcases resume_replica_cases pc ok k.replica c.storage with
    ⟨n, previousVStable, m1, rfl, -, -, hr⟩ | ⟨hr | hr, -⟩
  · rw [hr]
    rcases h.afterFinalDots_cases hk htask with heq | ⟨v, hbelow, heq⟩
    · rw [heq]
      exact Or.inl rfl
    · rw [heq]
      exact Or.inr (Or.inr ⟨n, previousVStable, m1, v, rfl, hbelow, rfl⟩)
  · exact Or.inl hr
  · exact Or.inr (Or.inl hr)

theorem Rows.initiateGc_keeps (h : Rows c) {k : Core E id} {pc : InitiateGc E} (ok : Bool)
    (hk : c.core id = some k) (htask : k.task = .initiateGc pc) :
    (pc.resume ok k.replica c.storage).2.1.dvv = k.replica.dvv ∧
      (pc.resume ok k.replica c.storage).2.1.gc.matrixClock = k.replica.gc.matrixClock := by
  rcases h.initiateGc_replica_cases ok hk htask with hr | ⟨e, hr⟩ | ⟨n, v', m1, v, -, -, hr⟩
  all_goals
    rw [hr]
    exact ⟨rfl, rfl⟩

/-! ## The step lemma -/

theorem observeEpochChange_keeps (r : Replica E id) {m : EpochMetadata} (hm : m.obsoleteDots = ∅) :
    (r.observeEpochChange m).dvv = r.dvv ∧
      (r.observeEpochChange m).gc.matrixClock = r.gc.matrixClock := by
  rw [Replica.observeEpochChange, hm, Replica.forgetNodes_empty]
  split
  · exact ⟨rfl, rfl⟩
  · exact ⟨rfl, rfl⟩

variable [DecidableEq E]

theorem effectiveCounter_le_handle (s : Server E id) {m : EpochMetadata} {n : NodeId}
    {req : CrdtEngineRequest E}
    (hn : req = .observeEpochChange → s.engine.replica.gc.epoch < m.epoch → n ∉ m.obsoleteDots)
    (choice : Option NodeId) :
    s.engine.replica.dvv.effectiveCounter n ≤
      (s.handle m choice req).1.core.replica.dvv.effectiveCounter n := by
  rcases s.handle_replica_cases m choice req with
    ⟨hr, -⟩ | ⟨op, -, hr⟩ | ⟨from_, crdtId, K, -, hr⟩ |
    ⟨from_, crdtId, payload, km, -, hr⟩ | ⟨hreq, hr⟩
  · rw [hr]
  · rw [hr]
    simp only [CrdtEngine.clientOperation, DotVersionVector.effectiveCounter_event]
    split <;> omega
  · rw [hr]
    exact Nat.le_refl _
  · rw [hr]
    have hdvv : (km.elim s.engine s.engine.learnMatrix).replica.dvv = s.engine.replica.dvv := by
      cases km <;> rfl
    simp only [CrdtEngine.mergeDelta, DotVersionVector.effectiveCounter_merge, hdvv]
    exact Nat.le_max_left _ _
  · rw [hr, Replica.observeEpochChange]
    split
    · exact Nat.le_refl _
    · next hbehind =>
      rw [Replica.effectiveCounter_forgetNodes _ _ (hn hreq (Nat.lt_of_not_le hbehind))]
      exact Nat.le_refl _

theorem Rows.grows_handled (h : Rows c) {choice : Option NodeId} {s : Server E id}
    {req : CrdtEngineRequest E} (hh : Handled c c' id choice s req) : Grows c c' := by
  refine Grows.of_others hh.others fun k hk => ?_
  rw [hh.before] at hk
  obtain rfl := Option.some.inj hk
  exact ⟨_, hh.after, fun _ => hh.not_bootstrap hh.after,
    fun n => effectiveCounter_le_handle s (fun _ _ => h.notMem_obsolete n) choice⟩

theorem Rows.rows_handled (h : Rows c) {choice : Option NodeId} {s : Server E id}
    {req : CrdtEngineRequest E} (hh : Handled c c' id choice s req) {mc : MatrixClock}
    (hmc : (s.handle c.storage.readEpochMetadata choice req).1.core.replica.gc.matrixClock =
      some mc) :
    c'.Truthful mc := by
  have hold : ∀ old, s.engine.replica.gc.matrixClock = some old → c.Truthful old :=
    fun old hmc => h.rows id s.core old hh.before hmc
  refine Truthful.grow (h.grows_handled hh) ?_
  rcases s.handle_replica_cases c.storage.readEpochMetadata choice req with ⟨hr, -⟩ | ⟨op, -, hr⟩ |
    ⟨from_, crdtId, K, rfl, hr⟩ | ⟨from_, crdtId, payload, km, rfl, hr⟩ | ⟨-, hr⟩
  · rw [hr] at hmc
    exact hold mc hmc
  · rw [hr] at hmc
    exact hold mc hmc
  · rw [hr] at hmc
    refine Truthful.update hold (fun p ctx hrow => ?_) hmc
    rw [AList.lookup_insert_eq] at hrow
    split at hrow
    · next hp =>
      subst hp
      obtain rfl := Option.some.inj hrow
      exact h.pending id _ hh.taken
    · rw [AList.lookup_empty] at hrow
      cases hrow
  · rw [hr] at hmc
    cases km with
    | none => exact hold mc hmc
    | some km => exact Truthful.update hold (h.pending id _ hh.taken km rfl) hmc
  · rw [hr, (observeEpochChange_keeps s.engine.replica h.obsolete_stored).2] at hmc
    exact hold mc hmc

theorem Rows.handled (h : Rows c) {choice : Option NodeId} {s : Server E id}
    {req : CrdtEngineRequest E} (hh : Handled c c' id choice s req) : Rows c' := by
  have hgrow := h.grows_handled hh
  have hserves : (s.handle c.storage.readEpochMetadata choice req).1.core.Serves :=
    hh.not_bootstrap hh.after
  refine h.of_step hgrow hh.others (by rw [hh.storage]; exact fun _ hx => hx) (by rw [hh.storage])
    (by rw [hh.storage]; exact h.obsolete_stored) (fun k' hk' => ?_) fun dst r hr => ?_
  · refine ⟨?_, fun pc m htask hm => ?_, fun n v m1 mc p htask => ?_, fun mc hmc => ?_⟩
    · rw [hh.storage]
      exact h.registered id _ hh.before
    · obtain rfl := (hh.initiateGc_of_task hk' htask).2
      cases hm
    · cases (hh.initiateGc_of_task hk' htask).2
    · rw [hh.after] at hk'
      obtain rfl := Option.some.inj hk'
      exact h.rows_handled hh hmc
  · refine (hh.pending dst r hr).imp_right ?_
    rintro ⟨envelope, hsent, hr⟩
    rcases s.sent_cases c.storage.readEpochMetadata choice req hsent hr with
      ⟨crdtId, rfl⟩ | ⟨crdtId, K, km, -, rfl, hkm⟩
    · refine ⟨_, hh.after, hserves, fun n => ?_⟩
      rw [DotVersionVector.counterAt_effectiveMap]
    · intro matrix hmatrix p ctx hrow
      obtain ⟨mc, hmc, hrow⟩ := GcCoordinator.row_getKnowledgeMatrix _ _ (hkm matrix hmatrix) hrow
      exact h.rows_handled hh hmc p ctx hrow

theorem resume_bootstrap_keeps (pc : NewReplicaBootstrap) (ok : Bool) (r : Replica E id)
    (st : Storage E) :
    (pc.resume ok r st).2.gc.matrixClock = r.gc.matrixClock ∧
      ∀ n, r.dvv.effectiveCounter n ≤ (pc.resume ok r st).2.dvv.effectiveCounter n := by
  rcases bootstrap_replica_cases pc ok r st with hr | ⟨e, hr⟩
  · rw [hr]
    exact ⟨rfl, fun _ => Nat.le_refl _⟩
  · rw [hr]
    refine ⟨rfl, fun n => ?_⟩
    simp only [NewReplicaBootstrap.adopt, Replica.setEpoch_dvv,
      DotVersionVector.effectiveCounter_merge]
    exact Nat.le_max_left _ _

theorem Rows.bootstrapped (h : Rows c) {k : Core E id} {pc : NewReplicaBootstrap} {ok : Bool}
    (hframe : Undisturbed c c' id) (hb : Bootstrapped c c' id k pc ok) : Rows c' ∧ Grows c c' := by
  obtain ⟨hmatrix, hle⟩ := resume_bootstrap_keeps pc ok k.replica c.storage
  have hgrow : Grows c c' := by
    refine Grows.of_others hframe.others fun k' hk' => ?_
    rw [hb.before] at hk'
    obtain rfl := Option.some.inj hk'
    exact ⟨_, hb.after, fun hserves => absurd hb.task (hserves pc), hle⟩
  refine ⟨h.of_step hgrow hframe.others (by rw [hb.storage]; exact fun _ hx => hx)
    (by rw [hb.storage])
    (by rw [hb.storage]; exact h.obsolete_stored) (fun k' hk' => ?_) fun dst r hr => ?_, hgrow⟩
  · refine ⟨?_, fun pc m htask => absurd htask (hb.not_initiateGc hk' pc),
      fun n v m1 mc p htask => absurd htask (hb.not_initiateGc hk' _), fun mc hmc => ?_⟩
    · rw [hb.storage]
      exact h.registered id k hb.before
    · rw [hb.after] at hk'
      obtain rfl := Option.some.inj hk'
      exact (h.rows id k mc hb.before (hmatrix ▸ hmc)).grow hgrow
  · exact (hframe.pending dst r hr).imp_right truthfulRequest_of_local

omit [DecidableEq E] in
theorem resume_metadata {P : EpochMetadata → Prop} {pc : InitiateGc E} (ok : Bool)
    (r : Replica E id) {st : Storage E} (hstored : P st.readEpochMetadata)
    (hpc : ∀ m, pc.metadata = some m → P m)
    (hnew : ∀ n previousVStable m1 m, pc = .readFinalDots n previousVStable m1 →
      (InitiateGc.afterFinalDots r n previousVStable m1 st.readFinalDots).1.metadata = some m →
      P m) :
    P (pc.resume ok r st).2.2.readEpochMetadata ∧
      ∀ pc' m, (pc.resume ok r st).1 = .await pc' → pc'.metadata = some m → P m := by
  cases ok with
  | false =>
    obtain ⟨result, hfailed⟩ := pc.resume_failed r st
    rw [hfailed]
    exact ⟨hstored, fun pc' m hout => (by cases hout)⟩
  | true =>
    cases pc with
    | readEpochMetadata | liveMembers =>
      refine ⟨hstored, fun pc' m hout hm => ?_⟩
      cases hout
      cases hm
    | claimGcIntent n previousVStable m0 =>
      rcases InitiateGc.resume_claim r st n previousVStable m0 with ⟨-, result, heq⟩ | ⟨-, heq⟩
      · rw [heq]
        exact ⟨hstored, fun pc' m hout => (by cases hout)⟩
      · rw [heq]
        refine ⟨hstored, fun pc' m hout hm => ?_⟩
        cases hout
        cases hm
    | liveMembersAgain n previousVStable m0 =>
      rcases InitiateGc.resume_again r st n previousVStable m0 with heq | heq <;>
      · rw [heq]
        refine ⟨hstored, fun pc' m hout hm => ?_⟩
        cases hout
        cases hm
    | readFinalDots n previousVStable m1 =>
      refine ⟨hstored, fun pc' m hout hm => ?_⟩
      cases hout
      exact hnew n previousVStable m1 m rfl hm
    | writeEpochState epochState epochMetadata =>
      refine ⟨hstored, fun pc' m hout hm => ?_⟩
      cases hout
      exact hpc m hm
    | writeEpochMetadata epochMetadata =>
      refine ⟨hpc epochMetadata rfl, fun pc' m hout hm => ?_⟩
      cases hout
      cases hm
    | releaseMembershipChange n | releaseNoProgress n | releaseCommit n =>
      exact ⟨hstored, fun pc' m hout => (by cases hout)⟩

omit [DecidableEq E] in
theorem Rows.obsolete_initiated (h : Rows c) {k : Core E id} {pc : InitiateGc E} (ok : Bool)
    (hk : c.core id = some k) (htask : k.task = .initiateGc pc) :
    (pc.resume ok k.replica c.storage).2.2.readEpochMetadata.obsoleteDots = ∅ ∧
      ∀ pc' m, (pc.resume ok k.replica c.storage).1 = .await pc' → pc'.metadata = some m →
        m.obsoleteDots = ∅ := by
  refine resume_metadata ok k.replica h.obsolete_stored
    (fun m hm => h.obsolete_calls id k pc m hk htask hm) fun n previousVStable m1 m hpc hm => ?_
  subst hpc
  rcases h.afterFinalDots_cases hk htask with heq | ⟨v, -, heq⟩
  · rw [heq] at hm
    cases hm
  · rw [heq] at hm
    cases hm
    rfl

omit [DecidableEq E] in
theorem second_listing {pc : InitiateGc E} {ok : Bool} {r : Replica E id} {st : Storage E} {n : Nat}
    {previousVStable : CausalContext} {m1 : List NodeId}
    (hout : (pc.resume ok r st).1 = .await (.readFinalDots n previousVStable m1)) :
    ok = true ∧ m1 = st.liveMembers ∧ ∃ m0, pc = .liveMembersAgain n previousVStable m0 := by
  cases ok with
  | false =>
    obtain ⟨result, hfailed⟩ := pc.resume_failed r st
    rw [hfailed] at hout
    cases hout
  | true =>
    cases pc with
    | liveMembersAgain n' v' m0 =>
      rcases InitiateGc.resume_again r st n' v' m0 with heq | heq
      · rw [heq] at hout
        cases hout
      · rw [heq] at hout
        cases hout
        exact ⟨rfl, rfl, m0, rfl⟩
    | claimGcIntent n' v' m0 =>
      rcases InitiateGc.resume_claim r st n' v' m0 with ⟨-, result, heq⟩ | ⟨-, heq⟩
        <;> rw [heq] at hout <;>
        cases hout
    | readFinalDots n' v' m1' =>
      simp only [InitiateGc.resume, if_true, InitiateGc.afterFinalDots] at hout
      split at hout <;> cases hout
    | _ => simp [InitiateGc.resume] at hout

omit [DecidableEq E] in
theorem Rows.initiated (h : Rows c) {k : Core E id} {pc : InitiateGc E} {ok : Bool}
    (hframe : Undisturbed c c' id) (hi : Initiated c c' id k pc ok) : Rows c' ∧ Grows c c' := by
  obtain ⟨hreg, hdots⟩ := resume_keeps pc ok k.replica c.storage
  obtain ⟨hstored, hcalls⟩ := h.obsolete_initiated ok hi.before hi.task
  have hkeeps := h.initiateGc_keeps ok hi.before hi.task
  have hgrow : Grows c c' := by
    refine Grows.of_others hframe.others fun k' hk' => ?_
    rw [hi.before] at hk'
    obtain rfl := Option.some.inj hk'
    refine ⟨_, hi.after, fun _ pc' => hi.not_bootstrap hi.after pc', fun n => ?_⟩
    simp only [hkeeps.1]
    exact Nat.le_refl _
  rw [← hi.storage] at hreg hdots hstored
  refine ⟨h.of_step hgrow hframe.others (by rw [hreg]; exact fun _ hx => hx) hdots hstored
    (fun k' hk' => ?_) fun dst r hr => (hframe.pending dst r hr).imp_right truthfulRequest_of_local,
      hgrow⟩
  have hmatrix : k'.replica.gc.matrixClock = k.replica.gc.matrixClock := by
    have hk' := hk'
    rw [hi.after] at hk'
    obtain rfl := Option.some.inj hk'
    exact hkeeps.2
  refine ⟨hreg ▸ h.registered id k hi.before,
    fun pc' m htask hm => hcalls pc' m (hi.await_of_task hk' htask) hm,
    fun n v m1 mc p htask hmc hp => ?_, fun mc hmc => ?_⟩
  · -- a new listing is a listing of all registered replicas
    obtain ⟨-, rfl, -⟩ := second_listing (hi.await_of_task hk' htask)
    rw [hmatrix] at hmc
    obtain ⟨ctx, hrow⟩ := AList.mem_iff_lookup.mp hp
    obtain ⟨kp, hkp, -⟩ := h.rows id k mc hi.before hmc p ctx hrow
    exact (c.storage.mem_liveMembers p).mpr (h.registered p kp hkp)
  · rw [hmatrix] at hmc
    exact (h.rows id k mc hi.before hmc).grow hgrow

omit [DecidableEq E] in
theorem truthful_new {gcReplica : Bool} {mc : MatrixClock}
    (hmc : (Replica.new gcReplica : Replica E id).gc.matrixClock = some mc) : c.Truthful mc := by
  cases gcReplica with
  | false => cases hmc
  | true =>
    obtain rfl := Option.some.inj hmc
    intro p ctx hrow
    rw [AList.lookup_empty] at hrow
    cases hrow

/-- **The step lemma**: while nobody departs, what is said about anybody's knowledge stays true, and
nobody forgets. -/
theorem Rows.step {l : Label E} (h : Rows c) (hl : l.stays = true) (hstep : c.step l = some c') :
    Rows c' ∧ Grows c c' := by
  cases l with
  | request | receive | duplicate | drop | connect | disconnect =>
    have hq : Quiet _ c c' := step_quiet (by exact trivial) hstep
    have hgrow : Grows c c' := Grows.refl hq.core
    refine ⟨⟨fun x k hk => ?_, ?_, ?_, fun x k pc m hk => ?_, fun x k n v m1 mc p hk => ?_,
      fun x k mc hk hmc => ?_, fun dst r hr => ?_⟩, hgrow⟩
    · rw [hq.core] at hk
      rw [hq.storage]
      exact h.registered x k hk
    · rw [hq.storage]
      exact h.stayed
    · rw [hq.storage]
      exact h.obsolete_stored
    · rw [hq.core] at hk
      exact h.obsolete_calls x k pc m hk
    · rw [hq.core] at hk
      exact h.listed x k n v m1 mc p hk
    · rw [hq.core] at hk
      exact (h.rows x k mc hk hmc).grow hgrow
    · rcases hq.pending dst r hr with hold | hlocal
      · exact (h.pending dst r hold).grow hgrow
      · exact truthfulRequest_of_local (local_of_puts hlocal)
  | handle id choice =>
    obtain ⟨s, req, hh⟩ := step_handle hstep
    exact ⟨h.handled hh, h.grows_handled hh⟩
  | resume id ok =>
    obtain ⟨hframe, ⟨k, pc, hb⟩ | ⟨k, pc, hi⟩⟩ := step_resume hstep
    · exact h.bootstrapped hframe hb
    · exact h.initiated hframe hi
  | start id gcReplica =>
    obtain ⟨hframe, hnone, hafter, hst, -⟩ := step_start hstep
    have hgrow : Grows c c' := Grows.of_others hframe.others fun k hk => by
      rw [hnone] at hk; cases hk
    refine ⟨h.of_step hgrow hframe.others (fun x hx => ?_) ?_ ?_ (fun k' hk' => ?_)
      fun dst r hr => (hframe.pending dst r hr).imp_right truthfulRequest_of_local, hgrow⟩
    · rw [hst]
      exact (c.storage.mem_register id x).mpr (Or.inr hx)
    · rw [hst, Storage.register_finalDots]
    · rw [hst, Storage.readEpochMetadata, Storage.register_epochMetadata]
      exact h.obsolete_stored
    · rw [hafter] at hk'
      obtain rfl := Option.some.inj hk'
      refine ⟨?_, fun pc m htask => ?_, fun n v m1 mc p htask => ?_, fun mc hmc => truthful_new hmc⟩
      · rw [hst]
        exact (c.storage.mem_register id id).mpr (Or.inl rfl)
      · cases htask
      · cases htask
  | heartbeat id =>
    obtain ⟨⟨k, hk⟩, rfl⟩ := step_heartbeat hstep
    have hgrow : Grows c { c with storage := c.storage.register id } := Grows.refl fun _ => rfl
    refine ⟨h.of_step hgrow (fun x (_ : x ≠ id) => rfl) (fun x hx => ?_) ?_ ?_ (fun k' hk' => ?_)
      fun dst r hr => Or.inl hr, hgrow⟩
    · exact (c.storage.mem_register id x).mpr (Or.inr hx)
    · exact Storage.register_finalDots _ _
    · rw [Storage.readEpochMetadata, Storage.register_epochMetadata]
      exact h.obsolete_stored
    · exact ⟨(c.storage.mem_register id id).mpr (Or.inl rfl),
        fun pc m => h.obsolete_calls id k' pc m hk',
        fun n v m1 mc p => h.listed id k' n v m1 mc p hk',
          fun mc hmc => (h.rows id k' mc hk' hmc).grow hgrow⟩
  | beginShutdown id => cases hl
  | continueShutdown id ok => cases hl

omit [DecidableEq E] in
theorem rows_fixed (members : HashMap NodeId Bool) : Rows (fixed members : Cluster E) := by
  have hcore : ∀ id k, (fixed members : Cluster E).core id = some k →
      id ∈ members ∧ ∃ gcReplica, k = ⟨.new gcReplica, .idle, .running⟩ := fun id k hk => by
    obtain ⟨gcReplica, hmember, rfl⟩ := core_fixed_cases hk
    exact ⟨AList.mem_of_lookup hmember, gcReplica, rfl⟩
  refine ⟨fun x k hk => ?_, rfl, rfl, fun x k pc m hk htask => ?_,
    fun x k n v m1 mc p hk htask => ?_,
    fun x k mc hk hmc => ?_, fun dst r hr => ?_⟩
  · exact (AList.mem_mapValues _ _ _).mpr (hcore x k hk).1
  · obtain ⟨-, gcReplica, rfl⟩ := hcore x k hk
    cases htask
  · obtain ⟨-, gcReplica, rfl⟩ := hcore x k hk
    cases htask
  · obtain ⟨-, gcReplica, rfl⟩ := hcore x k hk
    exact truthful_new hmc
  · exact absurd hr (not_pending_fixed members dst r)

end Cluster

end ExperimentalCrdt
