import ExperimentalCrdt.Cluster.Progress

/-!
# What an epoch reclaims in the end

`gc_keeps_meaning` says that collection takes nothing that is needed. Here is what it achieves. When
every replica knows the same, the matrix clocks have heard of it, and the clients are silent, then
whatever is on its way and whichever calls run and fail, there is at most one more frontier, and it
counts everything (`gc_is_complete`). A replica that enters its epoch is left without a single
tombstone and contains what it contained.

Such a frontier is also found: a call that a GC replica makes on its own, over a bucket that works,
commits it (`gc_gets_through`).
-/

namespace ExperimentalCrdt

open ObservedRemove (TombSound)
open Transition (Reachable replay replay_cons replay_append reachable_of_replay reachable_of_isSome)

variable {E : Type} {id : NodeId}

/-- The metadata is still `m`, or that of the next epoch under a frontier that counts `K`. -/
def EpochMetadata.SameOrNext (m : EpochMetadata) (K : NodeId → Nat) (m' : EpochMetadata) : Prop :=
  m' = m ∨ m'.epoch = m.epoch + 1 ∧ ∀ n, counterAt m'.vStable n = K n

/-- What a call that began after `m` was stored, among replicas that know `K`, has found. -/
def InitiateGc.Since (m : EpochMetadata) (K : NodeId → Nat) : InitiateGc E → Prop
  | .liveMembers n previousVStable | .claimGcIntent n previousVStable _ |
    .liveMembersAgain n previousVStable _ |
      .readFinalDots n previousVStable _ => n = m.epoch + 1 ∨ ∀ p, counterAt previousVStable p = K p
  | .writeEpochState _ epochMetadata | .writeEpochMetadata epochMetadata =>
    epochMetadata.epoch = m.epoch + 1 ∧ ∀ n, counterAt epochMetadata.vStable n = K n
  | _ => True

namespace InitiateGc

variable {pc pc' : InitiateGc E} {ok : Bool} {r : Replica E id} {st : Storage E} {K : NodeId → Nat}
  {m : EpochMetadata}

theorem await_cases (h : (pc.resume ok r st).1 = .await pc') : ok = true ∧
    (pc = .readEpochMetadata ∧
      pc' = .liveMembers (st.readEpochMetadata.epoch + 1) st.readEpochMetadata.vStable ∨
      (∃ n v, pc = .liveMembers n v ∧ pc' = .claimGcIntent n v st.liveMembers) ∨
      (∃ n v m0, pc = .claimGcIntent n v m0 ∧ pc' = .liveMembersAgain n v m0) ∨
      (∃ n v m0, pc = .liveMembersAgain n v m0 ∧
        (pc' = .releaseMembershipChange n ∨ pc' = .readFinalDots n v st.liveMembers)) ∨
      (∃ n v m1, pc = .readFinalDots n v m1 ∧ pc' = (afterFinalDots r n v m1 st.readFinalDots).1) ∨
      (∃ s m, pc = .writeEpochState s m ∧ pc' = .writeEpochMetadata m) ∨
      ∃ m, pc = .writeEpochMetadata m ∧ pc' = .releaseCommit m.epoch) := by
  cases ok with
  | false =>
    obtain ⟨result, hfailed⟩ := pc.resume_failed r st
    rw [hfailed] at h
    cases h
  | true =>
    refine ⟨rfl, ?_⟩
    cases pc with
    | claimGcIntent n v m0 =>
      rcases resume_claim r st n v m0 with ⟨-, result, heq⟩ | ⟨-, heq⟩
      · rw [heq] at h
        cases h
      · rw [heq] at h
        cases h
        simp
    | liveMembersAgain n v m0 =>
      rcases resume_again r st n v m0 with heq | heq
      all_goals
        rw [heq] at h
        cases h
        simp
    | readFinalDots n v m1 =>
      obtain rfl : (afterFinalDots r n v m1 st.readFinalDots).1 = pc' := Progress.await.inj h
      simp
    | releaseMembershipChange n | releaseNoProgress n | releaseCommit n => cases h
    | _ =>
      cases h
      simp

theorem resume_epoch (pc : InitiateGc E) (ok : Bool) (r : Replica E id) (st : Storage E) :
    (pc.resume ok r st).2.1.gc.epoch = r.gc.epoch ∨
      ∃ m, pc = .writeEpochMetadata m ∧ (pc.resume ok r st).2.1 = r.setEpoch m.epoch := by
  cases ok with
  | false =>
    obtain ⟨result, hfailed⟩ := pc.resume_failed r st
    rw [hfailed]
    exact Or.inl rfl
  | true =>
    cases pc with
    | writeEpochMetadata m => exact Or.inr ⟨m, rfl, rfl⟩
    | readFinalDots n v m1 =>
      left
      change (afterFinalDots r n v m1 st.readFinalDots).2.gc.epoch = r.gc.epoch
      by_cases hprogress :
        vvLeq (r.gc.computeStableTimestamp id m1 st.readFinalDots r.dvv.effectiveMap).1 v = true
      · rw [afterFinalDots_noProgress r n v m1 rfl hprogress]
      · rw [afterFinalDots_progress r n v m1 rfl hprogress]
        exact Replica.forgetNodes_epoch _ _
    | claimGcIntent n v m0 =>
      left
      rcases resume_claim r st n v m0 with ⟨-, result, heq⟩ | ⟨-, heq⟩
      all_goals rw [heq]
    | liveMembersAgain n v m0 =>
      left
      rcases resume_again r st n v m0 with heq | heq
      all_goals rw [heq]
    | _ => exact Or.inl rfl

theorem resume_again_same (r : Replica E id) (st : Storage E) (n : Nat) (v : CausalContext) :
    (InitiateGc.liveMembersAgain n v st.liveMembers).resume true r st =
      (.await (.readFinalDots n v st.liveMembers), r, st) := by
  simp only [resume, if_true]
  rw [not_newMemberExists_self]
  rfl

theorem Since.resume (h : pc.Since m K) (hstored : m.SameOrNext K st.readEpochMetadata)
    (hfinds : ∀ n v m1, pc = .readFinalDots n v m1 →
      (afterFinalDots r n v m1 st.readFinalDots).1.Since m K)
    (hout : (pc.resume ok r st).1 = .await pc') : pc'.Since m K := by
  obtain ⟨-, hcases⟩ := await_cases hout
  rcases hcases with ⟨rfl, rfl⟩ | ⟨n, v, rfl, rfl⟩ | ⟨n, v, m0, rfl, rfl⟩ |
    ⟨n, v, m0, rfl, hpc' | hpc'⟩ |
    ⟨n, v, m1, rfl, rfl⟩ | ⟨s, m', rfl, rfl⟩ | ⟨m', rfl, rfl⟩
  · rcases hstored with heq | ⟨-, hcounts⟩
    · exact Or.inl (congrArg (· + 1) (congrArg EpochMetadata.epoch heq))
    · exact Or.inr hcounts
  · exact h
  · exact h
  · rw [hpc']
    trivial
  · rw [hpc']
    exact h
  · exact hfinds n v m1 rfl
  · exact h
  · trivial

end InitiateGc

namespace Cluster

/-- Every replica knows `K`, and every matrix clock has heard so of all others. -/
structure Saturated (K : NodeId → Nat) (c : Cluster E) : Prop where
  knows : ∀ x k, c.core x = some k → ∀ n, k.replica.dvv.effectiveCounter n = K n
  told : ∀ x k mc p kp, c.core x = some k → k.replica.gc.matrixClock = some mc →
    c.core p = some kp → p ≠ x →
    ∃ ctx, mc.lookup p = some ctx ∧ ∀ n, K n ≤ counterAt ctx n

/-- The step works off no client operation. -/
def silent (c : Cluster E) : Label E → Bool
  | .handle id _ =>
    match c.nextRequest id with
    | some (.clientOperation _) => false
    | _ => true
  | _ => true

variable {c c' : Cluster E} {K : NodeId → Nat} {m : EpochMetadata}

/-! ## Rows -/

theorem Saturated.row_eq (h : Saturated K c) (hrows : Rows c) {k : Core E id} {mc : MatrixClock}
    {p : NodeId} {ctx : CausalContext} (hk : c.core id = some k)
    (hmc : k.replica.gc.matrixClock = some mc) (hp : p ≠ id) (hrow : mc.lookup p = some ctx)
    (n : NodeId) : counterAt ctx n = K n := by
  obtain ⟨kp, hkp, -, hle⟩ := hrows.rows id k mc hk hmc p ctx hrow
  obtain ⟨ctx', hrow', hle'⟩ := h.told id k mc p kp hk hmc hkp hp
  obtain rfl := Option.some.inj (hrow.symm.trans hrow')
  exact Nat.le_antisymm (h.knows p kp hkp n ▸ hle n) (hle' n)

theorem row_le_updateMatrixClock (self : GcCoordinator) {km mc : MatrixClock}
    (hmc : (self.updateMatrixClock km).matrixClock = some mc) :
    ∃ old, self.matrixClock = some old ∧ ∀ p ctx, old.lookup p = some ctx →
      ∃ ctx', mc.lookup p = some ctx' ∧ ∀ n, counterAt ctx n ≤ counterAt ctx' n := by
  obtain ⟨old, hold, rfl⟩ := Option.map_eq_some_iff.mp hmc
  refine ⟨old, hold, fun p ctx hrow => ?_⟩
  rw [AList.lookup_foldl_upsert km GcCoordinator.joinRow old p, hrow]
  cases km.lookup p with
  | none => exact ⟨ctx, rfl, fun n => Nat.le_refl _⟩
  | some incoming =>
    refine ⟨vvJoin incoming ctx, rfl, fun n => ?_⟩
    rw [counterAt_vvJoin]
    exact Nat.le_max_right _ _

section frontier

variable {k : Core E id} {m1 : List NodeId}

theorem Saturated.frontier_counts (h : Saturated K c) (finalDots : HashMap NodeId Nat) (hr : Rows c)
    (hk : c.core id = some k) (hself : id ∈ m1)
    (hlisted : ∀ mc p, k.replica.gc.matrixClock = some mc → p ∈ mc → p ∈ m1) :
    (∃ mc, k.replica.gc.matrixClock = some mc ∧ GcCoordinator.HasRows mc id m1 ∧ ∀ p, counterAt
      (k.replica.gc.computeStableTimestamp id m1 finalDots k.replica.dvv.effectiveMap).1 p = K p) ∨
    (∀ mc, k.replica.gc.matrixClock = some mc → ¬ GcCoordinator.HasRows mc id m1) ∧
      (k.replica.gc.computeStableTimestamp id m1 finalDots k.replica.dvv.effectiveMap).1 = ∅ := by
  cases hmc : k.replica.gc.matrixClock with
  | none =>
    right
    rw [GcCoordinator.computeStableTimestamp, hmc]
    exact ⟨fun mc hmc => (by cases hmc), rfl⟩
  | some mc =>
    by_cases hrows : GcCoordinator.HasRows mc id m1
    · refine Or.inl ⟨mc, rfl, hrows, fun p => ?_⟩
      have hrow : ∀ q ∈ m1, counterAt (k.replica.frontierRow q) p = K p := by
        intro q hq
        unfold Replica.frontierRow GcCoordinator.rowOf
        by_cases hqid : q = id
        · rw [if_pos hqid, DotVersionVector.counterAt_effectiveMap]
          exact h.knows id k hk p
        · obtain ⟨ctx, hctx⟩ := AList.mem_iff_lookup.mp ((hrows q hq).resolve_left hqid)
          rw [if_neg hqid, hmc, Option.getD_some, hctx, Option.getD_some]
          exact h.row_eq hr hk hmc hqid hctx p
      refine eq_of_forall_le_iff fun a => ?_
      rw [k.replica.le_stable_of_listed finalDots hmc (fun q hq => hlisted mc q hmc hq) hself hrows]
      exact ⟨fun hle => hrow id hself ▸ hle id hself, fun hle q hq => (hrow q hq).symm ▸ hle⟩
    · right
      rw [k.replica.gc.computeStableTimestamp_of_missing id m1 finalDots _ hmc hrows]
      exact ⟨fun mc' hmc' => Option.some.inj hmc' ▸ hrows, rfl⟩

variable {n : Nat} {previousVStable : CausalContext} [DecidableEq E]

/-- **In a saturated cluster a call finds no progress, or the frontier that counts everything.** -/
theorem Saturated.afterFinalDots (h : Saturated K c) (hr : Reclaiming c) (hk : c.core id = some k)
    (htask : k.task = .initiateGc (.readFinalDots n previousVStable m1)) :
    InitiateGc.afterFinalDots k.replica n previousVStable m1 c.storage.readFinalDots =
        (.releaseNoProgress n, k.replica) ∧
      ((∀ p, K p ≤ counterAt previousVStable p) ∨
        ∀ mc, k.replica.gc.matrixClock = some mc → ¬ GcCoordinator.HasRows mc id m1) ∨
    (¬ ∀ p, counterAt previousVStable p = K p) ∧ ∃ s v, (∀ p, counterAt v p = K p) ∧
      InitiateGc.afterFinalDots k.replica n previousVStable m1 c.storage.readFinalDots =
        (.writeEpochState s ⟨n, v, ∅⟩, k.replica.performGc v) := by
  obtain ⟨hobsolete, -⟩ := hr.rows.stable_below hk htask rfl
  have hcounts := h.frontier_counts c.storage.readFinalDots hr.rows hk
    (hr.listed id k n previousVStable m1 hk htask id k hk) fun mc p hmc hp =>
      hr.rows.listed id k n previousVStable m1 mc p hk htask hmc hp
  by_cases hprogress : vvLeq (k.replica.gc.computeStableTimestamp id m1 c.storage.readFinalDots
      k.replica.dvv.effectiveMap).1 previousVStable = true
  · refine Or.inl ⟨InitiateGc.afterFinalDots_noProgress _ n _ m1 rfl hprogress, ?_⟩
    rcases hcounts with ⟨mc, -, -, hcounts⟩ | ⟨hmissing, -⟩
    · exact Or.inl fun p => hcounts p ▸ vvLeq_iff.mp hprogress p
    · exact Or.inr hmissing
  · obtain ⟨mc, -, -, hcounts⟩ := hcounts.resolve_right fun hempty => hprogress (by
      rw [hempty.2]
      exact vvLeq_iff.mpr fun p => by simp)
    have hcommit := InitiateGc.afterFinalDots_progress k.replica n previousVStable m1 rfl hprogress
    rw [InitiateGc.prepareCommit, hobsolete] at hcommit
    refine Or.inr ⟨fun hprevious => hprogress (vvLeq_iff.mpr fun p => ?_), _, _, hcounts, hcommit⟩
    rw [hcounts, hprevious]

end frontier

/-! ## The steps -/

variable [DecidableEq E]

/-- Clients are silent, nobody joins or leaves, and no delta brings back an add. -/
def SilentGuard (c : Cluster E) (l : Label E) : Prop := ReclaimGuard c l ∧ silent c l = true

instance (c : Cluster E) (l : Label E) : Decidable (SilentGuard c l) :=
  inferInstanceAs (Decidable (_ ∧ _))

/-- The state of a saturated cluster since `m` was stored and no call ran. -/
structure Collecting (m : EpochMetadata) (K : NodeId → Nat) (c : Cluster E) : Prop where
  reclaiming : Reclaiming c
  saturated : Saturated K c
  stored : m.SameOrNext K c.storage.readEpochMetadata
  calls : ∀ x k pc, c.core x = some k → k.task = .initiateGc pc → pc.Since m K
  bare : ∀ x k pc m', c.core x = some k → k.task = .initiateGc pc → pc.metadata = some m' →
    k.replica.crdt.tombstones = ∅

theorem Saturated.tombstones_performGc (h : Saturated K c) (hr : Reclaiming c) {k : Core E id}
    (hk : c.core id = some k) {v : CausalContext} (hv : ∀ n, counterAt v n = K n) :
    (k.replica.performGc v).crdt.tombstones = ∅ := by
  refine AList.eq_empty_of_forall_notMem fun a ha => ?_
  obtain ⟨r, hr'⟩ := AList.mem_iff_lookup.mp ha
  obtain ⟨hlookup, hbeyond⟩ := (OrSet.lookup_tombstones_performGc _ _ _ _).mp hr'
  obtain ⟨hknown, -⟩ := (hr.replicated.faithful id k hk).tomb_sound a r hlookup
  refine hbeyond (DotVersionVector.known_subset_of_le _ _ (fun n => ?_) hknown)
  rw [DotVersionVector.effectiveCounter_frontierDvv, hv, h.knows id k hk]

omit [DecidableEq E] in
theorem Saturated.ownCounter_le (h : Saturated K c) (n : NodeId) : c.ownCounter n ≤ K n := by
  cases hk : c.core n with
  | none =>
    rw [ownCounter, hk]
    exact Nat.zero_le _
  | some k =>
    have hle := k.replica.dvv.dotCounter_le_effectiveCounter
    rw [k.replica.dvv_owner, h.knows n k hk] at hle
    rwa [ownCounter_of_core hk]

theorem row_le_handle (s : Server E id) {m : EpochMetadata} (hm : m.obsoleteDots = ∅)
    (choice : Option NodeId) (req : CrdtEngineRequest E) {mc : MatrixClock}
    (hmc : (s.handle m choice req).1.core.replica.gc.matrixClock = some mc) :
    ∃ old, s.engine.replica.gc.matrixClock = some old ∧ ∀ p ctx, old.lookup p = some ctx →
      ∃ ctx', mc.lookup p = some ctx' ∧ ∀ n, counterAt ctx n ≤ counterAt ctx' n := by
  have hsame : s.engine.replica.gc.matrixClock = some mc →
      ∃ old, s.engine.replica.gc.matrixClock = some old ∧
      ∀ p ctx, old.lookup p = some ctx → ∃ ctx', mc.lookup p = some ctx' ∧
          ∀ n, counterAt ctx n ≤ counterAt ctx' n :=
    fun hmc => ⟨mc, hmc, fun p ctx hrow => ⟨ctx, hrow, fun n => Nat.le_refl _⟩⟩
  rcases s.handle_replica_cases m choice req with ⟨hr, -⟩ | ⟨op, -, hr⟩ |
    ⟨from_, crdtId, L, -, hr⟩ | ⟨from_, crdtId, payload, km, -, hr⟩ | ⟨-, hr⟩
  · exact hsame (hr ▸ hmc)
  · rw [hr] at hmc
    exact hsame hmc
  · rw [hr] at hmc
    exact row_le_updateMatrixClock s.engine.replica.gc hmc
  · rw [hr] at hmc
    cases km with
    | none => exact hsame hmc
    | some km => exact row_le_updateMatrixClock s.engine.replica.gc hmc
  · rw [hr, (observeEpochChange_keeps s.engine.replica hm).2] at hmc
    exact hsame hmc

section handled

variable {choice : Option NodeId} {s : Server E id} {req : CrdtEngineRequest E}

theorem Replicated.effectiveCounter_handled {G : Set Dot} (h : Replicated G c) (hrows : Rows c)
    (hh : Handled c c' id choice s req) (hop : ∀ op, req ≠ .clientOperation op) (n : NodeId) :
    (s.handle c.storage.readEpochMetadata choice req).1.core.replica.dvv.effectiveCounter n ≤
      c.ownCounter n := by
  have hbounded := h.bounded id s.core hh.before n
  rcases s.handle_replica_cases c.storage.readEpochMetadata choice req with ⟨hr, -⟩ | ⟨op, rfl, -⟩ |
    ⟨from_, crdtId, L, -, hr⟩ | ⟨from_, crdtId, payload, km, rfl, hr⟩ | ⟨-, hr⟩
  · rw [hr]
    exact hbounded
  · exact absurd rfl (hop op)
  · rw [hr]
    exact hbounded
  · have hdvv : (km.elim s.engine s.engine.learnMatrix).replica.dvv = s.engine.replica.dvv := by
      cases km <;> rfl
    rw [hr]
    simp only [CrdtEngine.mergeDelta, DotVersionVector.effectiveCounter_merge, hdvv]
    exact Nat.max_le.mpr ⟨hbounded, h.bounded_deltas id from_ crdtId payload km hh.taken n⟩
  · rw [hr, (observeEpochChange_keeps s.engine.replica hrows.obsolete_stored).1]
    exact hbounded

theorem Saturated.handled (h : Saturated K c) (hr : Reclaiming c)
    (hh : Handled c c' id choice s req) (hop : ∀ op, req ≠ .clientOperation op) :
    Saturated K c' := by
  have hbefore : ∀ x k', c'.core x = some k' → ∃ k, c.core x = some k := fun x k' hk' => by
    obtain ⟨k, hk, -⟩ := learned_handled hr.rows hh x k' hk'
    exact ⟨k, hk⟩
  refine ⟨fun x k' hk' n => ?_, fun x k' mc p kp hk' hmc hkp hp => ?_⟩
  · by_cases hx : x = id
    · subst hx
      rw [hh.after] at hk'
      obtain rfl := Option.some.inj hk'
      refine Nat.le_antisymm ?_ ?_
      · exact Nat.le_trans (hr.replicated.effectiveCounter_handled hr.rows hh hop n)
          (h.ownCounter_le n)
      · rw [← h.knows x s.core hh.before n]
        exact effectiveCounter_le_handle s (fun _ _ => hr.rows.notMem_obsolete n) choice
    · exact h.knows x k' (hh.others x hx ▸ hk') n
  · obtain ⟨kp, hkp⟩ := hbefore p kp hkp
    by_cases hx : x = id
    · subst hx
      rw [hh.after] at hk'
      obtain rfl := Option.some.inj hk'
      obtain ⟨old, hold, hle⟩ := row_le_handle s hr.rows.obsolete_stored choice req hmc
      obtain ⟨ctx, hrow, htold⟩ := h.told x s.core old p kp hh.before hold hkp hp
      obtain ⟨ctx', hrow', hle⟩ := hle p ctx hrow
      exact ⟨ctx', hrow', fun n => Nat.le_trans (htold n) (hle n)⟩
    · exact h.told x k' mc p kp (hh.others x hx ▸ hk') hmc hkp hp

end handled

omit [DecidableEq E] in
theorem Saturated.initiated {k : Core E id} {pc : InitiateGc E} {ok : Bool} (h : Saturated K c)
    (hrows : Rows c) (hframe : Undisturbed c c' id) (hi : Initiated c c' id k pc ok) :
    Saturated K c' := by
  obtain ⟨hdvv, hmatrix⟩ := hrows.initiateGc_keeps ok hi.before hi.task
  -- no vector and no matrix clock moves
  have hcore : ∀ x k', c'.core x = some k' → ∃ k0, c.core x = some k0 ∧
      k'.replica.dvv = k0.replica.dvv ∧
      k'.replica.gc.matrixClock = k0.replica.gc.matrixClock := fun x k' hk' => by
    by_cases hx : x = id
    · subst hx
      rw [hi.after] at hk'
      obtain rfl := Option.some.inj hk'
      exact ⟨k, hi.before, hdvv, hmatrix⟩
    · exact ⟨k', hframe.others x hx ▸ hk', rfl, rfl⟩
  refine ⟨fun x k' hk' n => ?_, fun x k' mc p kp hk' hmc hkp hp => ?_⟩
  · obtain ⟨k0, hk0, hvector, -⟩ := hcore x k' hk'
    rw [hvector]
    exact h.knows x k0 hk0 n
  · obtain ⟨k0, hk0, -, hrows⟩ := hcore x k' hk'
    obtain ⟨kp0, hkp0, -⟩ := hcore p kp hkp
    exact h.told x k0 mc p kp0 hk0 (hrows ▸ hmc) hkp0 hp

theorem Saturated.step (h : Saturated K c) (hr : Reclaiming c) {l : Label E} (hok : SilentGuard c l)
    (hstep : c.step l = some c') : Saturated K c' := by
  obtain ⟨⟨hl, -⟩, hsilent⟩ := hok
  have hsame : (∀ x, c'.core x = c.core x) → Saturated K c' := fun hcore =>
    ⟨fun x k hk => h.knows x k (hcore x ▸ hk), fun x k mc p kp hk hmc hkp =>
      h.told x k mc p kp (hcore x ▸ hk) hmc (hcore p ▸ hkp)⟩
  cases l with
  | request | receive | duplicate | drop | connect | disconnect =>
    have hq : Quiet _ c c' := step_quiet (by exact trivial) hstep
    exact hsame hq.core
  | handle id choice =>
    obtain ⟨s, req, hh⟩ := step_handle hstep
    refine h.handled hr hh ?_
    rintro op rfl
    rw [silent, hh.next] at hsilent
    cases hsilent
  | resume id ok =>
    obtain ⟨hframe, ⟨k, pc, hb⟩ | ⟨k, pc, hi⟩⟩ := step_resume hstep
    · exact absurd hb.task (hr.serving id k hb.before pc)
    · exact h.initiated hr.rows hframe hi
  | heartbeat id =>
    obtain ⟨-, rfl⟩ := step_heartbeat hstep
    exact hsame fun _ => rfl
  | start | beginShutdown | continueShutdown => cases hl

section initiated

variable {k : Core E id} {pc : InitiateGc E} {ok : Bool}

theorem Collecting.finds (h : Collecting m K c) {n : Nat} {v : CausalContext} {m1 : List NodeId}
    (hk : c.core id = some k) (htask : k.task = .initiateGc (.readFinalDots n v m1)) :
    (InitiateGc.afterFinalDots k.replica n v m1 c.storage.readFinalDots).1.Since m K ∧
      ∀ m', (InitiateGc.afterFinalDots k.replica n v m1 c.storage.readFinalDots).1.metadata =
        some m' →
        (InitiateGc.afterFinalDots k.replica n v m1 c.storage.readFinalDots).2.crdt.tombstones =
          ∅ := by
  rcases h.saturated.afterFinalDots h.reclaiming hk htask
    with ⟨heq, -⟩ | ⟨hbefore, s, w, hcounts, heq⟩
  · rw [heq]
    exact ⟨trivial, fun m' hm => (by cases hm)⟩
  · rw [heq]
    exact ⟨⟨(h.calls id k _ hk htask).resolve_right hbefore, hcounts⟩,
      fun m' _ => h.saturated.tombstones_performGc h.reclaiming hk hcounts⟩

theorem Collecting.initiated (h : Collecting m K c) (hreclaiming : Reclaiming c')
    (hsaturated : Saturated K c') (hframe : Undisturbed c c' id) (hi : Initiated c c' id k pc ok) :
    Collecting m K c' := by
  have hpc := h.calls id k pc hi.before hi.task
  refine ⟨hreclaiming, hsaturated, ?_, fun x k' pc' hk' htask => ?_,
    fun x k' pc' m' hk' htask hm => ?_⟩
  · rw [hi.storage]
    rcases resume_commits pc ok k.replica c.storage with ⟨-, hst⟩ | ⟨m', rfl, -, hst⟩
    · exact hst ▸ h.stored
    · rw [hst]
      exact Or.inr hpc
  · by_cases hx : x = id
    · subst hx
      refine hpc.resume h.stored (fun n v m1 heq => ?_) (hi.await_of_task hk' htask)
      exact (h.finds hi.before (heq ▸ hi.task)).1
    · exact h.calls x k' pc' (hframe.others x hx ▸ hk') htask
  · by_cases hx : x = id
    · subst hx
      obtain ⟨rfl, hcases⟩ := InitiateGc.await_cases (hi.await_of_task hk' htask)
      rw [hi.after] at hk'
      obtain rfl := Option.some.inj hk'
      rcases hcases with ⟨-, rfl⟩ | ⟨n, v, -, rfl⟩ | ⟨n, v, m0, -, rfl⟩ | ⟨n, v, m0, -, rfl | rfl⟩ |
        ⟨n, v, m1, rfl, rfl⟩ | ⟨s, m'', rfl, rfl⟩ | ⟨m'', -, rfl⟩
      case inr.inr.inr.inr.inl => exact (h.finds hi.before hi.task).2 m' hm
      case inr.inr.inr.inr.inr.inl => exact h.bare x k _ m'' hi.before hi.task rfl
      all_goals cases hm
    · exact h.bare x k' pc' m' (hframe.others x hx ▸ hk') htask hm

end initiated

/-- **The step lemma.** -/
theorem Collecting.step (h : Collecting m K c) {l : Label E} (hok : SilentGuard c l)
    (hstep : c.step l = some c') :
    Collecting m K c' := by
  obtain ⟨hguard, hsilent⟩ := hok
  have hreclaiming := h.reclaiming.step hguard hstep
  have hsaturated := h.saturated.step h.reclaiming ⟨hguard, hsilent⟩ hstep
  -- a step that moves no replica and no call
  have hsame : (∀ x, c'.core x = c.core x) → c'.storage.epochMetadata = c.storage.epochMetadata →
      Collecting m K c' := by
    intro hcore hmeta
    refine ⟨hreclaiming, hsaturated, ?_, fun x k pc hk => h.calls x k pc (hcore x ▸ hk),
      fun x k pc m' hk => h.bare x k pc m' (hcore x ▸ hk)⟩
    rw [Storage.readEpochMetadata, hmeta]
    exact h.stored
  cases l with
  | request | receive | duplicate | drop | connect | disconnect =>
    have hq : Quiet _ c c' := step_quiet (by exact trivial) hstep
    exact hsame hq.core (by rw [hq.storage])
  | handle id choice =>
    obtain ⟨s, req, hh⟩ := step_handle hstep
    have hcalls : ∀ x k pc, c'.core x = some k → k.task = .initiateGc pc →
        pc = .readEpochMetadata ∨ c.core x = some k := fun x k pc hk htask => by
      by_cases hx : x = id
      · subst hx
        exact Or.inl (hh.initiateGc_of_task hk htask).2
      · exact Or.inr (hh.others x hx ▸ hk)
    refine ⟨hreclaiming, hsaturated, hh.storage ▸ h.stored, fun x k pc hk htask => ?_,
      fun x k pc m' hk htask hm => ?_⟩
    · rcases hcalls x k pc hk htask with rfl | hk
      · trivial
      · exact h.calls x k pc hk htask
    · rcases hcalls x k pc hk htask with rfl | hk
      · cases hm
      · exact h.bare x k pc m' hk htask hm
  | resume id ok =>
    obtain ⟨hframe, ⟨k, pc, hb⟩ | ⟨k, pc, hi⟩⟩ := step_resume hstep
    · exact absurd hb.task (h.reclaiming.serving id k hb.before pc)
    · exact h.initiated hreclaiming hsaturated hframe hi
  | heartbeat id =>
    obtain ⟨-, rfl⟩ := step_heartbeat hstep
    exact hsame (fun _ => rfl) (c.storage.register_epochMetadata id)
  | start | beginShutdown | continueShutdown => cases hguard.1

theorem epoch_handle (s : Server E id) (m : EpochMetadata) (choice : Option NodeId)
    (req : CrdtEngineRequest E) :
    (s.handle m choice req).1.core.replica.gc.epoch = s.engine.replica.gc.epoch ∨
      (s.handle m choice req).1.core.replica.gc.epoch = m.epoch ∧
        (s.handle m choice req).1.core.replica.crdt =
          (s.engine.replica.performGc m.vStable).crdt := by
  rcases s.handle_replica_cases m choice req with ⟨hr, -⟩ | ⟨op, -, hr⟩ |
    ⟨from_, crdtId, L, -, hr⟩ | ⟨from_, crdtId, payload, km, -, hr⟩ | ⟨-, hr⟩
  · exact Or.inl (by rw [hr])
  · rw [hr]
    exact Or.inl rfl
  · rw [hr]
    exact Or.inl rfl
  · rw [hr]
    cases km <;> exact Or.inl rfl
  · rw [hr]
    unfold Replica.observeEpochChange
    split
    · exact Or.inl rfl
    · rw [Replica.forgetNodes_epoch, Replica.setEpoch_epoch, Replica.forgetNodes_crdt,
        Replica.setEpoch_crdt]
      exact Or.inr ⟨rfl, rfl⟩

theorem Collecting.enters (h : Collecting m K c) {l : Label E} (hl : l.fixes = true)
    (hstep : c.step l = some c') {k k' : Core E id} (hk : c.core id = some k)
    (hk' : c'.core id = some k') (hbefore : k.replica.gc.epoch ≠ m.epoch + 1)
    (hafter : k'.replica.gc.epoch = m.epoch + 1) : k'.replica.crdt.tombstones = ∅ := by
  have hsame : c'.core id = c.core id → k'.replica.crdt.tombstones = ∅ := fun hcore => by
    rw [hk', hk] at hcore
    obtain rfl := Option.some.inj hcore
    exact absurd hafter hbefore
  cases l with
  | request | receive | duplicate | drop | connect | disconnect =>
    have hq : Quiet _ c c' := step_quiet (by exact trivial) hstep
    exact hsame (hq.core id)
  | handle x choice =>
    obtain ⟨s, req, hh⟩ := step_handle hstep
    by_cases hx : id = x
    · subst hx
      obtain rfl := Option.some.inj (hk.symm.trans hh.before)
      obtain rfl := Option.some.inj (hk'.symm.trans hh.after)
      rcases epoch_handle s c.storage.readEpochMetadata choice req with hepoch | ⟨hepoch, hcrdt⟩
      · exact absurd (hepoch.symm.trans hafter) hbefore
      · rcases h.stored with heq | ⟨-, hcounts⟩
        · have hnext := hepoch.symm.trans hafter
          rw [heq] at hnext
          omega
        · rw [hcrdt]
          exact h.saturated.tombstones_performGc h.reclaiming hh.before hcounts
    · exact hsame (hh.others id hx)
  | resume x ok =>
    obtain ⟨hframe, ⟨k0, pc, hb⟩ | ⟨k0, pc, hi⟩⟩ := step_resume hstep
    · exact absurd hb.task (h.reclaiming.serving x k0 hb.before pc)
    · by_cases hx : id = x
      · subst hx
        obtain rfl := Option.some.inj (hk.symm.trans hi.before)
        obtain rfl := Option.some.inj (hk'.symm.trans hi.after)
        rcases InitiateGc.resume_epoch pc ok k.replica c.storage with hsame | ⟨m', rfl, hr⟩
        · exact absurd (hsame.symm.trans hafter) hbefore
        · simp only [hr, Replica.setEpoch_crdt]
          exact h.bare id k _ m' hk hi.task rfl
      · exact hsame (hframe.others id hx)
  | heartbeat x =>
    obtain ⟨-, rfl⟩ := step_heartbeat hstep
    exact hsame rfl
  | start | beginShutdown | continueShutdown => cases hl

/-! ## Runs -/

theorem collecting_of_reachable {members : HashMap NodeId Bool}
    (h : Reachable Cluster.step ReclaimGuard (fixed members) c) (hsat : Saturated K c)
    (hcalls : ∀ id, ¬ c.Calls id) (h' : Reachable Cluster.step SilentGuard c c') :
    Collecting c.storage.readEpochMetadata K c' := by
  refine h'.invariant ⟨reclaiming_of_reachable h, hsat, Or.inl rfl, fun x k pc hk htask => ?_,
    fun x k pc m' hk htask => ?_⟩ fun s l s' _ hs hok hstep => hs.step hok hstep
  · exact absurd ⟨k, pc, hk, htask⟩ (hcalls x)
  · exact absurd ⟨k, pc, hk, htask⟩ (hcalls x)

theorem history_of_silent (h : Reachable Cluster.step SilentGuard c c') :
    c'.history = c.history := by
  refine h.invariant (P := fun s => s.history = c.history) rfl fun s l s' _ hs hok hstep => ?_
  obtain ⟨⟨hl, -⟩, hsilent⟩ := hok
  refine Eq.trans ?_ hs
  cases l with
  | request | receive | duplicate | drop | connect | disconnect =>
    have hq : Quiet _ s s' := step_quiet (by exact trivial) hstep
    exact hq.history
  | handle id choice =>
    obtain ⟨t, req, hh⟩ := step_handle hstep
    rw [silent, hh.next] at hsilent
    rw [hh.history]
    cases req with
    | clientOperation op => cases hsilent
    | _ => exact List.append_nil _
  | resume id ok => exact (step_resume hstep).1.history
  | heartbeat id =>
    obtain ⟨-, rfl⟩ := step_heartbeat hstep
    rfl
  | start | beginShutdown | continueShutdown => cases hl

/-- **Collection is complete.** From a cluster of fixed members in which everybody knows the same,
the matrix clocks have heard so and no call runs, while the clients are silent and no delta brings
back an add: what is stored is what was, or the next epoch with a frontier that counts everything;
every replica keeps its elements; and a replica that enters the next epoch has no tombstone left. -/
theorem gc_is_complete (members : HashMap NodeId Bool) (K : NodeId → Nat) (c c' : Cluster E)
    (h : Reachable Cluster.step ReclaimGuard (fixed members) c) (hsat : Saturated K c)
    (hcalls : ∀ id, ¬ c.Calls id) (h' : Reachable Cluster.step SilentGuard c c') :
    c.storage.readEpochMetadata.SameOrNext K c'.storage.readEpochMetadata ∧
    (∀ id k k', c.core id = some k → c'.core id = some k' →
      ∀ e, e ∈ k'.replica.crdt.elements ↔ e ∈ k.replica.crdt.elements) ∧
    ∀ l c'', SilentGuard c' l → c'.step l = some c'' →
      ∀ id k' k'', c'.core id = some k' → c''.core id = some k'' →
        k'.replica.gc.epoch ≠ c.storage.readEpochMetadata.epoch + 1 →
        k''.replica.gc.epoch = c.storage.readEpochMetadata.epoch + 1 →
        k''.replica.crdt.tombstones = ∅ := by
  have hc := collecting_of_reachable h hsat hcalls .start
  have hc' := collecting_of_reachable h hsat hcalls h'
  refine ⟨hc'.stored, fun id k k' hk hk' e => ?_, fun l c'' hok hstep id k' k'' hk' hk'' =>
    hc'.enters hok.1.1 hstep hk' hk''⟩
  have hr := hc.reclaiming.replicated
  have hr' := hc'.reclaiming.replicated
  have hevents : events c' = events c := by rw [events, events, history_of_silent h']
  have hknown : k'.replica.dvv.known = k.replica.dvv.known := known_eq_of_effectiveMap fun n => by
    rw [DotVersionVector.counterAt_effectiveMap, DotVersionVector.counterAt_effectiveMap,
      hc'.saturated.knows id k' hk', hc.saturated.knows id k hk]
  rw [OrSet.mem_elements, OrSet.mem_elements, contains_iff_live hr'.unique (hr'.faithful id k' hk'),
    contains_iff_live hr.unique (hr.faithful id k hk), hevents, hknown]

/-! ## A call on its own -/

theorem saturated_of_reachable (hr : Reclaiming c) (hsat : Saturated K c)
    (h : Reachable Cluster.step SilentGuard c c') :
    Reclaiming c' ∧ Saturated K c' :=
  h.invariant (P := fun c => Reclaiming c ∧ Saturated K c) ⟨hr, hsat⟩ fun _ _ _ _ hs hok hstep =>
    ⟨hs.1.step hok.1 hstep, hs.2.step hs.1 hok hstep⟩

theorem core_of_registered {members : HashMap NodeId Bool}
    (h : Reachable Cluster.step ReclaimGuard (fixed members) c) {p : NodeId}
    (hp : p ∈ c.storage.registrations) :
    ∃ k, c.core p = some k := by
  refine h.invariant (P := fun c : Cluster E => ∀ p ∈ c.storage.registrations,
    ∃ k, c.core p = some k)
    (fun p hp => ?_) (fun s l s' hs hthere hok hstep p hp => ?_) p hp
  · obtain ⟨gcReplica, hmember⟩ := AList.mem_iff_lookup.mp ((AList.mem_mapValues _ _ _).mp hp)
    exact ⟨_, by rw [core_fixed, hmember]; rfl⟩
  · have hgrow := ((reclaiming_of_reachable hs).rows.step (Label.stays_of_fixes hok.1) hstep).2
    have hstays : (∃ k, s.core p = some k) → ∃ k', s'.core p = some k' := fun ⟨k, hk⟩ => by
      obtain ⟨k', hk', -⟩ := hgrow p k hk
      exact ⟨k', hk'⟩
    cases l with
    | request | receive | duplicate | drop | connect | disconnect =>
      have hq : Quiet _ s s' := step_quiet (by exact trivial) hstep
      exact hstays (hthere p (hq.storage ▸ hp))
    | handle id choice =>
      obtain ⟨t, req, hh⟩ := step_handle hstep
      exact hstays (hthere p (hh.storage ▸ hp))
    | resume id ok =>
      obtain ⟨-, ⟨k, pc, hb⟩ | ⟨k, pc, hi⟩⟩ := step_resume hstep
      · exact hstays (hthere p (hb.storage ▸ hp))
      · rw [hi.storage, (resume_keeps pc ok k.replica s.storage).1] at hp
        exact hstays (hthere p hp)
    | heartbeat id =>
      obtain ⟨⟨k, hk⟩, rfl⟩ := step_heartbeat hstep
      rcases (s.storage.mem_register id p).mp hp with rfl | hp
      · exact ⟨k, hk⟩
      · exact hthere p hp
    | start | beginShutdown | continueShutdown => cases hok.1

theorem call_advances {r r' : Replica E id} {pc : InitiateGc E} {shutdown : Shutdown}
    {out : Progress (InitiateGc E) InitiateGcResult} {st st' : Storage E}
    (hk : c.core id = some ⟨r, .initiateGc pc, shutdown⟩) (hst : c.storage = st)
    (hout : pc.resume true r st = (out, r', st')) :
    ∃ c', SilentGuard c (.resume id true) ∧ c.step (.resume id true) = some c' ∧
      c'.core id = some ⟨r', .ofProgress .initiateGc out, shutdown⟩ ∧ c'.storage = st' := by
  obtain ⟨s, hs, hcore⟩ := Option.map_eq_some_iff.mp hk
  have htask : s.engine.task = .initiateGc pc := congrArg Core.task hcore
  obtain ⟨c', hstep⟩ : ∃ c', c.step (.resume id true) = some c' := by
    simp only [step, hs, Option.bind_eq_bind, Option.bind_some, Server.resume, htask]
    exact ⟨_, rfl⟩
  refine ⟨c', ⟨⟨rfl, rfl⟩, rfl⟩, hstep, ?_⟩
  obtain ⟨-, ⟨k, pc', hb⟩ | ⟨k, pc', hi⟩⟩ := step_resume hstep
  · obtain rfl := Option.some.inj (hk.symm.trans hb.before)
    cases hb.task
  · obtain rfl := Option.some.inj (hk.symm.trans hi.before)
    obtain rfl := EngineTask.initiateGc.inj hi.task
    rw [hi.after, hi.storage, hst, hout]
    exact ⟨rfl, rfl⟩

theorem call_begins {s : Server E id} {rest : List (CrdtEngineRequest E)}
    (hs : c.nodes.lookup id = some s) (hidle : s.engine.task = .idle)
    (hrx : s.engine.rx = .initiateGc :: rest) (choice : Option NodeId) :
    ∃ c', SilentGuard c (.handle id choice) ∧ c.step (.handle id choice) = some c' ∧
      c'.core id = some ⟨s.engine.replica, .initiateGc .readEpochMetadata, s.shutdown⟩ ∧
      c'.storage = c.storage := by
  have hnext : c.nextRequest id = some .initiateGc := by
    rw [nextRequest, hs, Option.bind_some, hrx]
    rfl
  obtain ⟨c', hstep⟩ : ∃ c', c.step (.handle id choice) = some c' := by
    simp only [step, hs, Option.bind_eq_bind, Option.bind_some, hidle, hrx]
    exact ⟨_, rfl⟩
  refine ⟨c', ⟨⟨rfl, ?_⟩, ?_⟩, hstep, ?_⟩
  · rw [harmless, hnext, c.core_of_lookup hs]
  · rw [silent, hnext]
  · obtain ⟨t, req, hh⟩ := step_handle hstep
    obtain rfl := Option.some.inj (hnext.symm.trans hh.next)
    have hcore : s.core = t.core := Option.some.inj ((c.core_of_lookup hs).symm.trans hh.before)
    rw [hh.after, hh.storage]
    refine ⟨?_, rfl⟩
    change some (Core.mk t.core.replica _ t.core.shutdown) = _
    rw [← hcore]
    rfl

theorem call_lists {s : Server E id} {rest : List (CrdtEngineRequest E)}
    (hs : c.nodes.lookup id = some s) (hidle : s.engine.task = .idle)
    (hrx : s.engine.rx = .initiateGc :: rest) (choice : Option NodeId)
    (hfree : c.storage.readEpochMetadata.epoch + 1 ∉ c.storage.gcIntents) :
    ∃ c', replay Cluster.step SilentGuard c
      (.handle id choice :: List.replicate 4 (.resume id true)) = some c' ∧
      c'.core id =
        some ⟨s.engine.replica, .initiateGc (.readFinalDots (c.storage.readEpochMetadata.epoch + 1)
        c.storage.readEpochMetadata.vStable c.storage.liveMembers), s.shutdown⟩ := by
  obtain ⟨c₁, hok₁, hstep₁, hk₁, hst₁⟩ := call_begins hs hidle hrx choice
  obtain ⟨c₂, hok₂, hstep₂, hk₂, hst₂⟩ := call_advances hk₁ hst₁ rfl
  obtain ⟨c₃, hok₃, hstep₃, hk₃, hst₃⟩ := call_advances hk₂ hst₂ rfl
  obtain ⟨-, hclaim⟩ :=
    (InitiateGc.resume_claim s.engine.replica c.storage (c.storage.readEpochMetadata.epoch + 1)
    c.storage.readEpochMetadata.vStable c.storage.liveMembers).resolve_left fun hheld =>
      hfree hheld.1
  obtain ⟨c₄, hok₄, hstep₄, hk₄, hst₄⟩ := call_advances hk₃ hst₃ hclaim
  -- the claim leaves the listing alone
  have hmembers : c₄.storage.liveMembers = c.storage.liveMembers := by
    rw [hst₄]
    rfl
  obtain ⟨c₅, hok₅, hstep₅, hk₅, -⟩ := call_advances hk₄ rfl
    (hmembers ▸ InitiateGc.resume_again_same s.engine.replica c₄.storage _
      c.storage.readEpochMetadata.vStable)
  refine ⟨c₅, ?_, hk₅⟩
  rw [replay_cons hok₁ hstep₁]
  change replay _ _ _ [_, _, _, _] = _
  rw [replay_cons hok₂ hstep₂, replay_cons hok₃ hstep₃, replay_cons hok₄ hstep₄,
    replay_cons hok₅ hstep₅, replay]

theorem call_commits {k : Core E id} {n : Nat} {previousVStable : CausalContext} {m1 : List NodeId}
    {epochState : EpochState E} {m : EpochMetadata} {r : Replica E id} (hk : c.core id = some k)
    (htask : k.task = .initiateGc (.readFinalDots n previousVStable m1))
    (hfound : InitiateGc.afterFinalDots k.replica n previousVStable m1 c.storage.readFinalDots =
      (.writeEpochState epochState m, r)) :
    ∃ c', replay Cluster.step SilentGuard c (List.replicate 4 (.resume id true)) = some c' ∧
      c'.core id = some ⟨r.setEpoch m.epoch, .idle, k.shutdown⟩ ∧
      c'.storage.readEpochMetadata = m := by
  obtain ⟨replica, task, shutdown⟩ := k
  obtain rfl : task = _ := htask
  have hread : InitiateGc.resume (.readFinalDots n previousVStable m1) true replica c.storage =
      (.await (.writeEpochState epochState m), r, c.storage) := by
    simp only [InitiateGc.resume, if_true]
    rw [hfound]
  obtain ⟨c₁, hok₁, hstep₁, hk₁, hst₁⟩ := call_advances hk rfl hread
  obtain ⟨c₂, hok₂, hstep₂, hk₂, hst₂⟩ := call_advances hk₁ hst₁ rfl
  obtain ⟨c₃, hok₃, hstep₃, hk₃, hst₃⟩ := call_advances hk₂ hst₂ rfl
  obtain ⟨c₄, hok₄, hstep₄, hk₄, hst₄⟩ := call_advances hk₃ hst₃ rfl
  refine ⟨c₄, ?_, hk₄, by rw [hst₄]; rfl⟩
  change replay _ _ _ [_, _, _, _] = _
  rw [replay_cons hok₁ hstep₁, replay_cons hok₂ hstep₂, replay_cons hok₃ hstep₃,
    replay_cons hok₄ hstep₄, replay]

/-- **Collection gets through.** In a saturated cluster of fixed members whose stored frontier does
not count everything, a GC replica whose next request is to initiate, with the intent free and the
bucket working, is done after eight storage calls: the next epoch is published under a frontier that
counts everything, and the replica is in it without a tombstone. -/
theorem gc_gets_through (members : HashMap NodeId Bool) (K : NodeId → Nat) (c : Cluster E)
    (h : Reachable Cluster.step ReclaimGuard (fixed members) c) (hsat : Saturated K c)
    (hbehind : ∃ n, counterAt c.storage.readEpochMetadata.vStable n < K n) (s : Server E id)
    (rest : List (CrdtEngineRequest E)) (choice : Option NodeId) (hs : c.nodes.lookup id = some s)
    (hidle : s.engine.task = .idle) (hrx : s.engine.rx = .initiateGc :: rest)
    (hgc : s.engine.replica.gc.gcReplica = true)
    (hfree : c.storage.readEpochMetadata.epoch + 1 ∉ c.storage.gcIntents) :
    ∃ c' k', replay Cluster.step SilentGuard c
      (.handle id choice :: List.replicate 8 (.resume id true)) = some c' ∧
      c'.storage.readEpochMetadata.epoch = c.storage.readEpochMetadata.epoch + 1 ∧
      (∀ n, counterAt c'.storage.readEpochMetadata.vStable n = K n) ∧
      c'.core id = some k' ∧ k'.task = .idle ∧
      k'.replica.gc.epoch = c.storage.readEpochMetadata.epoch + 1 ∧
      k'.replica.crdt.tombstones = ∅ := by
  obtain ⟨c₅, hreplay₅, hk₅⟩ := call_lists hs hidle hrx choice hfree
  obtain ⟨hr₅, hsat₅⟩ :=
    saturated_of_reachable (reclaiming_of_reachable h) hsat (reachable_of_replay _ .start hreplay₅)
  -- every member has a row
  obtain ⟨mc, hmc⟩ := Option.isSome_iff_exists.mp (s.engine.replica.gc.matrixClock_isSome.trans hgc)
  have hrows : GcCoordinator.HasRows mc id c.storage.liveMembers :=
      fun p hp => or_iff_not_imp_left.mpr fun hne => by
    obtain ⟨kp, hkp⟩ := core_of_registered h ((c.storage.mem_liveMembers p).mp hp)
    obtain ⟨ctx, hctx, -⟩ := hsat.told id s.core mc p kp (c.core_of_lookup hs) hmc hkp hne
    exact AList.mem_of_lookup hctx
  rcases hsat₅.afterFinalDots hr₅ hk₅ rfl with ⟨-, hcovers | hmissing⟩ |
    ⟨-, epochState, v, hcounts, hfound⟩
  · obtain ⟨n, hn⟩ := hbehind
    exact absurd (hcovers n) (Nat.not_le.mpr hn)
  · exact absurd hrows (hmissing mc hmc)
  · obtain ⟨c', hreplay, hk', hstored⟩ := call_commits hk₅ rfl hfound
    refine ⟨c', _, ?_, congrArg EpochMetadata.epoch hstored, fun n => ?_, hk', rfl, rfl, ?_⟩
    · change replay _ _ _ ((Label.handle id choice :: List.replicate 4 (Label.resume id true)) ++
        List.replicate 4 (Label.resume id true)) = _
      rw [replay_append, hreplay₅, Option.bind_some, hreplay]
    · rw [hstored]
      exact hcounts n
    · exact hsat₅.tombstones_performGc hr₅ hk₅ hcounts

/-! ## Two replicas -/

/-- The vectors of all replicas are `v`, and so are the rows of all others in a matrix clock. -/
def allKnow (v : CausalContext) (c : Cluster String) : Bool :=
  c.nodes.entries.all fun e =>
    decide (e.2.engine.replica.dvv.effectiveMap.entries = v.entries) &&
      e.2.engine.replica.gc.matrixClock.all fun mc =>
        c.nodes.keys.all fun p => p == e.1 || ((mc.lookup p).elim false fun ctx => vvLeq v ctx)

theorem saturated_of_allKnow {v : CausalContext} {c : Cluster String} (h : allKnow v c = true) :
    Saturated (counterAt v) c := by
  have hall : ∀ x (k : Core String x), c.core x = some k → k.replica.dvv.effectiveMap = v ∧
      k.replica.gc.matrixClock.all (fun mc =>
        c.nodes.keys.all fun p => p == x || ((mc.lookup p).elim false fun ctx => vvLeq v ctx)) =
            true := by
    intro x k hk
    obtain ⟨s, hs, rfl⟩ := Option.map_eq_some_iff.mp hk
    have hentry := List.all_eq_true.mp h ⟨x, s⟩ (AList.mem_lookup_iff.mp hs)
    rw [Bool.and_eq_true, decide_eq_true_eq] at hentry
    exact ⟨AList.ext hentry.1, hentry.2⟩
  refine ⟨fun x k hk n => ?_, fun x k mc p kp hk hmc hkp hne => ?_⟩
  · rw [← DotVersionVector.counterAt_effectiveMap, (hall x k hk).1]
  · obtain ⟨s, hs, -⟩ := Option.map_eq_some_iff.mp hkp
    have hrows := (hall x k hk).2
    rw [hmc, Option.all_some] at hrows
    have hrow := List.all_eq_true.mp hrows p (AList.mem_keys.mp
      (AList.lookup_isSome.mp (Option.isSome_iff_exists.mpr ⟨s, hs⟩)))
    rw [Bool.or_eq_true, beq_iff_eq] at hrow
    cases hctx : mc.lookup p with
    | none =>
      rw [hctx] at hrow
      exact absurd hrow (by simp [hne])
    | some ctx =>
      rw [hctx] at hrow
      exact ⟨ctx, rfl, vvLeq_iff.mp (hrow.resolve_left hne)⟩

/-- A GC replica `G` and a replica `R`. -/
def gcAndOther : Cluster String := fixed (AList.ofPairs [("G", true), ("R", false)])

/-- `G` adds `x` and removes it again, `R` learns of both and tells `G`, and `G` is about to
initiate. -/
def removesX : List (Label String) :=
  [.connect "G" "R" false, .connect "R" "G" true, .request "G" (.clientOperation (.add "x")),
    .handle "G" none] ++
  pull "R" "G" 0 ++ [.request "G" (.clientOperation (.remove "x")), .handle "G" none] ++
    pull "R" "G" 0 ++
  advertise "R" "G" 0 ++ [.request "G" .initiateGc]

/-- The call of `G`, until `R` is about to observe the epoch. -/
def collects : List (Label String) :=
  .handle "G" none :: List.replicate 8 (.resume "G" true) ++ [.request "R" .observeEpochChange]

def removedX : Cluster String :=
  (replay Cluster.step ReclaimGuard gcAndOther removesX).getD gcAndOther
def collectedX : Cluster String := (replay Cluster.step SilentGuard removedX collects).getD removedX

/-- The epoch of a replica, and how many tombstones it holds. -/
def holdings (c : Cluster String) (id : NodeId) : Option (Nat × Nat) :=
  (c.core id).map fun k => (k.replica.gc.epoch, k.replica.crdt.tombstones.entries.length)

theorem reachable_removedX : Reachable Cluster.step ReclaimGuard gcAndOther removedX :=
  have hruns : (replay Cluster.step ReclaimGuard gcAndOther removesX).isSome = true :=
    by decide +kernel
  reachable_of_isSome hruns

theorem saturated_removedX : Saturated (counterAt (AList.ofPairs [("G", 2)])) removedX :=
  saturated_of_allKnow (by decide +kernel)

/-- `R` enters the epoch and loses its tombstone. -/
theorem gc_is_complete_collects : holdings collectedX "R" = some (0, 1) ∧
    ∃ c k, collectedX.step (.handle "R" none) = some c ∧ c.core "R" = some k ∧
    k.replica.crdt.tombstones = ∅ := by
  have hcollected : Reachable Cluster.step SilentGuard removedX collectedX :=
    have hruns : (replay Cluster.step SilentGuard removedX collects).isSome = true :=
      by decide +kernel
    reachable_of_isSome hruns
  have hcalls : removedX.someCalls = false := by decide +kernel
  have hstored : removedX.storage.readEpochMetadata.epoch = 0 := by decide +kernel
  have hbefore : holdings collectedX "R" = some (0, 1) := by decide +kernel
  obtain ⟨k, hk, hepoch⟩ := Option.map_eq_some_iff.mp hbefore
  have hafter : (collectedX.step (.handle "R" none)).map (fun c => holdings c "R") =
      some (some (1, 0)) := by
    decide +kernel
  obtain ⟨c, hstep, hheld⟩ := Option.map_eq_some_iff.mp hafter
  obtain ⟨k', hk', hepoch'⟩ := Option.map_eq_some_iff.mp hheld
  have hcomplete := gc_is_complete _ _ removedX collectedX reachable_removedX saturated_removedX
    (not_calls_of_someCalls hcalls) hcollected
  refine ⟨hbefore, c, k', hstep, hk', hcomplete.2.2 (.handle "R" none) c
    (by decide +kernel) hstep "R" k k' hk hk' ?_ ?_⟩
  · rw [hstored, (Prod.mk.inj hepoch).1]
    decide
  · rw [hstored, (Prod.mk.inj hepoch').1]

/-- The engine is idle and will initiate next. -/
def initiatesNext (c : Cluster String) (id : NodeId) : Bool :=
  (c.nodes.lookup id).elim false fun s =>
    match s.engine.task, s.engine.rx with
    | .idle, .initiateGc :: _ => s.engine.replica.gc.gcReplica
    | _, _ => false

theorem gc_gets_through_removesX :
    ∃ c, replay Cluster.step SilentGuard removedX
      (.handle "G" none :: List.replicate 8 (.resume "G" true)) = some c ∧
      c.storage.readEpochMetadata.epoch = 1 ∧
      ∀ n, counterAt c.storage.readEpochMetadata.vStable n =
        counterAt (AList.ofPairs [("G", 2)]) n := by
  have hnext : initiatesNext removedX "G" = true := by decide +kernel
  unfold initiatesNext at hnext
  cases hs : removedX.nodes.lookup "G" with
  | none =>
    rw [hs] at hnext
    cases hnext
  | some s =>
    rw [hs, Option.elim_some] at hnext
    split at hnext
    · next rest hidle hrx =>
      obtain ⟨c, -, hreplay, hepoch, hcounts, -⟩ :=
        gc_gets_through _ _ removedX reachable_removedX saturated_removedX
        ⟨"G", by decide +kernel⟩ s rest none hs hidle hrx hnext (by decide +kernel)
      exact ⟨c, hreplay, hepoch.trans (by decide +kernel), hcounts⟩
    · cases hnext

end Cluster

end ExperimentalCrdt
