import ExperimentalCrdt.Cluster.Knowledge

/-!
# Invariants of the replicated data

Many facts about a cluster are about its data only: something about what a replica holds, about what
a delta on its way carries, and about the snapshot in the bucket. `DataRules R D S` says that the
operations of a replica preserve the three predicates, and `DataInv.step` that every step of the
cluster then does. Only the two places where a replica forgets nodes, the observation of an epoch
and the commit of one, are left to the caller, because their effect depends on the run.
-/

namespace ExperimentalCrdt

variable {E : Type} {id : NodeId} [DecidableEq E]

/-- `R` holds of every replica, `D` of every delta and `S` of every snapshot, as far as the
operations of one replica go. -/
structure DataRules (R : (id : NodeId) → Replica E id → Prop) (D : OrSetDelta E → Prop)
    (S : EpochState E → Prop) : Prop where
  new : ∀ id gcReplica, R id (.new gcReplica)
  gc : ∀ id (r : Replica E id) gc, R id r → R id { r with gc, dvv_owner := r.dvv_owner }
  clientOperation : ∀ id (engine : CrdtEngine E id) registry choice op, R id engine.replica →
    R id (engine.clientOperation registry choice op).1.replica
  mergeDelta : ∀ id (engine : CrdtEngine E id) delta, R id engine.replica → D delta →
    R id (engine.mergeDelta delta).replica
  deltaSince : ∀ id (r : Replica E id) remoteKnowledge, R id r →
    D (r.crdt.deltaSince remoteKnowledge r.dvv)
  adopt : ∀ id (r : Replica E id) epochState currentEpoch, R id r → S epochState →
    R id (NewReplicaBootstrap.adopt r epochState currentEpoch)
  nothing : S ((Storage.fresh ∅ : Storage E).readEpochState)

namespace Cluster

structure DataInv (R : (id : NodeId) → Replica E id → Prop) (D : OrSetDelta E → Prop)
    (S : EpochState E → Prop) (c : Cluster E) : Prop where
  replicas : ∀ id k, c.core id = some k → R id k.replica
  deltas : ∀ dst fromNode crdtId delta km, c.Pending dst (.deltaResponse fromNode crdtId delta km) →
    D delta
  stored : S c.storage.readEpochState
  snapshots : ∀ id k epochState epochMetadata, c.core id = some k →
    k.task = .initiateGc (.writeEpochState epochState epochMetadata) → S epochState

variable {R : (id : NodeId) → Replica E id → Prop} {D : OrSetDelta E → Prop}
  {S : EpochState E → Prop} {c c' : Cluster E}

omit [DecidableEq E] in
theorem DataInv.of_step (h : DataInv R D S c) (hothers : ∀ x, x ≠ id → c'.core x = c.core x)
    (hself : ∀ k', c'.core id = some k' → R id k'.replica ∧ ∀ epochState epochMetadata,
      k'.task = .initiateGc (.writeEpochState epochState epochMetadata) → S epochState)
    (hdeltas : ∀ dst fromNode crdtId delta km,
      c'.Pending dst (.deltaResponse fromNode crdtId delta km) →
      c.Pending dst (.deltaResponse fromNode crdtId delta km) ∨ D delta)
    (hstored : S c'.storage.readEpochState) : DataInv R D S c' := by
  refine ⟨fun x k hk => ?_, fun dst fromNode crdtId delta km hreq => ?_, hstored,
    fun x k s m hk htask => ?_⟩
  · by_cases hx : x = id
    · subst hx
      exact (hself k hk).1
    · exact h.replicas x k (hothers x hx ▸ hk)
  · rcases hdeltas dst fromNode crdtId delta km hreq with hold | hnew
    · exact h.deltas dst fromNode crdtId delta km hold
    · exact hnew
  · by_cases hx : x = id
    · subst hx
      exact (hself k hk).2 s m htask
    · exact h.snapshots x k s m (hothers x hx ▸ hk) htask

variable (rules : DataRules R D S)
include rules

theorem DataInv.handled (h : DataInv R D S c) {choice : Option NodeId} {s : Server E id}
    {req : CrdtEngineRequest E} (hh : Handled c c' id choice s req)
    (hobserve : req = .observeEpochChange →
      R id (s.engine.replica.observeEpochChange c.storage.readEpochMetadata)) :
      DataInv R D S c' := by
  have hr := h.replicas id s.core hh.before
  refine h.of_step hh.others (fun k' hk' => ⟨?_, fun epochState epochMetadata htask => ?_⟩)
    (fun dst fromNode crdtId delta km hreq => ?_) (hh.storage ▸ h.stored)
  · rw [hh.after] at hk'
    obtain rfl := Option.some.inj hk'
    rcases s.handle_replica_cases c.storage.readEpochMetadata choice req
      with ⟨hcase, -⟩ | ⟨op, -, hcase⟩ |
      ⟨from_, crdtId, K, -, hcase⟩ | ⟨from_, crdtId, payload, km, rfl, hcase⟩ | ⟨hreq, hcase⟩
    · rw [hcase]
      exact hr
    · rw [hcase]
      exact rules.clientOperation id s.engine _ _ op hr
    · rw [hcase]
      exact rules.gc id s.engine.replica _ hr
    · rw [hcase]
      apply rules.mergeDelta id _ payload
      · cases km with
        | none => exact hr
        | some km => exact rules.gc id s.engine.replica _ hr
      · exact h.deltas id _ _ payload km hh.taken
    · rw [hcase]
      exact hobserve hreq
  · cases (hh.initiateGc_of_task hk' htask).2
  · refine (hh.pending dst _ hreq).imp_right ?_
    rintro ⟨envelope, hsent, hr'⟩
    rcases s.sent_cases c.storage.readEpochMetadata choice req hsent hr' with
      ⟨crdtId, heq⟩ | ⟨crdtId, K, km', -, heq, -⟩
    · cases heq
    · cases heq
      exact rules.deltaSince id s.engine.replica K hr

theorem DataInv.resumed (h : DataInv R D S c) {ok : Bool} (hstep : c.step (.resume id ok) = some c')
    (hcommit : ∀ k n previousVStable m1, c.core id = some k → ok = true →
      k.task = .initiateGc (.readFinalDots n previousVStable m1) →
        R id (InitiateGc.afterFinalDots k.replica n previousVStable m1 c.storage.readFinalDots).2 ∧
          ∀ epochState epochMetadata, (InitiateGc.afterFinalDots k.replica n previousVStable m1
            c.storage.readFinalDots).1 = .writeEpochState epochState epochMetadata → S epochState) :
    DataInv R D S c' := by
  obtain ⟨hframe, ⟨k, pc, hb⟩ | ⟨k, pc, hi⟩⟩ := step_resume hstep
  · refine h.of_step hframe.others (fun k' hk' => ⟨?_, fun s m htask => ?_⟩)
      (fun dst fromNode crdtId delta km hreq =>
        Or.inl ((hframe.pending dst _ hreq).resolve_right fun hlocal => hlocal))
          (hb.storage ▸ h.stored)
    · rw [hb.after] at hk'
      obtain rfl := Option.some.inj hk'
      show R id (pc.resume ok k.replica c.storage).2
      rcases bootstrap_replica_cases pc ok k.replica c.storage with hr | ⟨e, hr⟩
      · rw [hr]
        exact h.replicas id k hb.before
      · rw [hr]
        exact rules.adopt id k.replica _ e (h.replicas id k hb.before) h.stored
    · exact absurd htask (hb.not_initiateGc hk' _)
  · have hcases := resume_replica_cases pc ok k.replica c.storage
    refine h.of_step hframe.others (fun k' hk' => ⟨?_, fun s m htask => ?_⟩)
      (fun dst fromNode crdtId delta km hreq =>
        Or.inl ((hframe.pending dst _ hreq).resolve_right fun hlocal => hlocal)) ?_
    · rw [hi.after] at hk'
      obtain rfl := Option.some.inj hk'
      show R id (pc.resume ok k.replica c.storage).2.1
      rcases hcases with ⟨n, previousVStable, m1, rfl, hok, -, hr⟩ | ⟨hr | ⟨e, hr⟩, -⟩
      · rw [hr]
        exact (hcommit k n previousVStable m1 hi.before hok hi.task).1
      · rw [hr]
        exact h.replicas id k hi.before
      · rw [hr]
        exact rules.gc id k.replica _ (h.replicas id k hi.before)
    · have hawait := hi.await_of_task hk' htask
      rcases hcases with ⟨n, previousVStable, m1, rfl, hok, hpc, -⟩ | ⟨-, hnone⟩
      · rw [hpc] at hawait
        exact (hcommit k n previousVStable m1 hi.before hok hi.task).2 s m
          (Progress.await.inj hawait)
      · exact absurd hawait (hnone s m)
    · rw [hi.storage]
      rcases resume_epochState pc ok k.replica c.storage with heq | ⟨m, hpc⟩
      · rw [heq]
        exact h.stored
      · exact h.snapshots id k _ m hi.before (hi.task.trans (congrArg _ hpc))

/-- **The step lemma**: what one replica preserves, the cluster preserves, up to the forgetting of
nodes. -/
theorem DataInv.step {l : Label E} (h : DataInv R D S c) (hstep : c.step l = some c')
    (hobserve : ∀ id choice k, l = .handle id choice → c.core id = some k →
      c.nextRequest id = some .observeEpochChange →
        R id (k.replica.observeEpochChange c.storage.readEpochMetadata))
    (hcommit : ∀ id k n previousVStable m1, l = .resume id true → c.core id = some k →
      k.task = .initiateGc (.readFinalDots n previousVStable m1) →
        R id (InitiateGc.afterFinalDots k.replica n previousVStable m1 c.storage.readFinalDots).2 ∧
          ∀ epochState epochMetadata, (InitiateGc.afterFinalDots k.replica n previousVStable m1
            c.storage.readFinalDots).1 = .writeEpochState epochState epochMetadata → S epochState) :
    DataInv R D S c' := by
  cases l with
  | request | receive | duplicate | drop | connect | disconnect =>
    have hq : Quiet _ c c' := step_quiet (by exact trivial) hstep
    refine ⟨fun x k hk => h.replicas x k (hq.core x ▸ hk),
      fun dst fromNode crdtId delta km hreq => ?_,
      by rw [hq.storage]; exact h.stored, fun x k s m hk => h.snapshots x k s m (hq.core x ▸ hk)⟩
    exact h.deltas dst fromNode crdtId delta km
      ((hq.pending dst _ hreq).resolve_right fun hputs => local_of_puts hputs)
  | handle id choice =>
    obtain ⟨s, req, hh⟩ := step_handle hstep
    exact h.handled rules hh fun hreq => hobserve id choice s.core rfl hh.before (hreq ▸ hh.next)
  | resume id ok =>
    refine h.resumed rules hstep fun k n previousVStable m1 hk hok htask => ?_
    subst hok
    exact hcommit id k n previousVStable m1 rfl hk htask
  | start id gcReplica =>
    obtain ⟨hframe, -, hafter, hst, -⟩ := step_start hstep
    refine h.of_step hframe.others (fun k' hk' => ?_) (fun dst fromNode crdtId delta km hreq =>
      Or.inl ((hframe.pending dst _ hreq).resolve_right fun hlocal => hlocal)) ?_
    · rw [hafter] at hk'
      obtain rfl := Option.some.inj hk'
      exact ⟨rules.new id gcReplica, fun s m htask => by cases htask⟩
    · rw [hst, Storage.readEpochState, Storage.register_epochState]
      exact h.stored
  | heartbeat id =>
    obtain ⟨-, rfl⟩ := step_heartbeat hstep
    refine ⟨h.replicas, h.deltas, ?_, h.snapshots⟩
    rw [Storage.readEpochState, Storage.register_epochState]
    exact h.stored
  | beginShutdown id =>
    obtain ⟨hframe, hst, -, k, hk, -, hafter⟩ := step_beginShutdown hstep
    refine h.of_step hframe.others (fun k' hk' => ?_) (fun dst fromNode crdtId delta km hreq =>
      Or.inl ((hframe.pending dst _ hreq).resolve_right fun hlocal => hlocal)) (hst ▸ h.stored)
    rw [hafter] at hk'
    obtain rfl := Option.some.inj hk'
    exact ⟨h.replicas id k hk, fun s m htask => h.snapshots id k s m hk htask⟩
  | continueShutdown id ok =>
    obtain ⟨hframe, -, k, hk, hcase⟩ := step_continueShutdown hstep
    have hstored : c'.storage.readEpochState = c.storage.readEpochState := by
      rcases hcase with ⟨finalDot, -, hcase⟩ | ⟨-, -, hst⟩ | ⟨-, -, hst⟩
      · split at hcase
        · rw [hcase.2]
          rfl
        · rw [hcase.2]
      · rw [hst]
        split <;> rfl
      · rw [hst]
    have hcore : ∀ k', c'.core id = some k' → k'.replica = k.replica ∧ k'.task = k.task := by
      intro k' hk'
      rcases hcase with ⟨finalDot, -, hcase⟩ | ⟨-, hafter, -⟩ | ⟨-, hafter, -⟩
      · split at hcase
        · rw [hcase.1] at hk'
          obtain rfl := Option.some.inj hk'
          exact ⟨rfl, rfl⟩
        · rw [hcase.1] at hk'
          obtain rfl := Option.some.inj hk'
          exact ⟨rfl, rfl⟩
      · rw [hafter] at hk'
        obtain rfl := Option.some.inj hk'
        exact ⟨rfl, rfl⟩
      · rw [hafter] at hk'
        cases hk'
    refine h.of_step hframe.others (fun k' hk' => ?_) (fun dst fromNode crdtId delta km hreq =>
      Or.inl ((hframe.pending dst _ hreq).resolve_right fun hlocal => hlocal)) (hstored ▸ h.stored)
    obtain ⟨hreplica, htask⟩ := hcore k' hk'
    rw [hreplica, htask]
    exact ⟨h.replicas id k hk, fun s m => h.snapshots id k s m hk⟩

theorem dataInv_fixed (members : HashMap NodeId Bool) :
    DataInv R D S (fixed members : Cluster E) := by
  refine ⟨fun x k hk => ?_, fun dst fromNode crdtId delta km hreq => ?_, rules.nothing,
    fun x k s m hk htask => ?_⟩
  · obtain ⟨gcReplica, -, rfl⟩ := core_fixed_cases hk
    exact rules.new x gcReplica
  · exact absurd hreq (not_pending_fixed members dst _)
  · obtain ⟨gcReplica, -, rfl⟩ := core_fixed_cases hk
    cases htask

end Cluster

end ExperimentalCrdt
