import ExperimentalCrdt.Gc.StableTimestamp

/-!
# What an epoch does to a replica

An epoch reaches a replica in two ways: by `observeEpochChange`, from the published metadata, or by
`prepareCommit`, on the replica that computes it. Both reclaim the tombstones under the frontier and
forget the obsolete nodes. The lemmas here describe the forgetting by lookups, say what either way
leaves alone, and characterise when the local part of a commit changes nothing (`NothingToForget`).
-/

namespace ExperimentalCrdt

/-- The rows and columns that remain of a matrix clock. -/
def MatrixClock.forget (mc : MatrixClock) (l : List NodeId) : MatrixClock :=
  l.foldl (fun mc p => (AList.erase p mc).mapValues fun ctx => ctx.erase p) mc

theorem MatrixClock.lookup_forget (l : List NodeId) (mc : MatrixClock) (k : NodeId) :
    (mc.forget l).lookup k =
      if k ∈ l then none else (mc.lookup k).map fun ctx => removeNodes ctx l := by
  induction l generalizing mc with
  | nil => simp [forget, removeNodes]
  | cons p l ih =>
    have hstep : mc.forget (p :: l) =
        MatrixClock.forget ((AList.erase p mc).mapValues fun ctx => ctx.erase p) l := rfl
    rw [hstep, ih, AList.lookup_mapValues, AList.lookup_erase_eq]
    by_cases hp : k = p
    · simp [hp]
    · by_cases hl : k ∈ l
      · simp [hl]
      · simp [hp, hl, Option.map_map, Function.comp_def, removeNodes]

namespace Replica

variable {E : Type} {id : NodeId}

private theorem forgetLoop (l : List NodeId) : ∀ r : Replica E id,
    (l.foldl forgetNode r).crdt = r.crdt ∧ (l.foldl forgetNode r).dvv.dot = r.dvv.dot ∧
    (l.foldl forgetNode r).gc.epoch = r.gc.epoch ∧
    (l.foldl forgetNode r).gc.gcReplica = r.gc.gcReplica ∧
    (l.foldl forgetNode r).dvv.context = removeNodes r.dvv.context l ∧
    (l.foldl forgetNode r).gc.matrixClock = r.gc.matrixClock.map (MatrixClock.forget · l) := by
  induction l with
  | nil =>
    intro r
    refine ⟨rfl, rfl, rfl, rfl, rfl, ?_⟩
    simp [MatrixClock.forget]
  | cons p l ih =>
    intro r
    obtain ⟨hcrdt, hdot, hepoch, hgc, hctx, hmc⟩ := ih (r.forgetNode p)
    refine ⟨hcrdt, hdot, hepoch, hgc, hctx, hmc.trans ?_⟩
    simp only [forgetNode, GcCoordinator.removeMatrixClockColumn,
      GcCoordinator.removeMatrixClockRow,
      GcCoordinator.modifyMatrix, Option.map_map]
    rfl

variable (r : Replica E id) (obsolete : HashSet NodeId) (v : CausalContext)

@[simp] theorem forgetNodes_crdt : (r.forgetNodes obsolete).crdt = r.crdt :=
  (forgetLoop obsolete.keys r).1

@[simp] theorem forgetNodes_dot : (r.forgetNodes obsolete).dvv.dot = r.dvv.dot :=
  (forgetLoop obsolete.keys r).2.1

@[simp] theorem forgetNodes_epoch : (r.forgetNodes obsolete).gc.epoch = r.gc.epoch :=
  (forgetLoop obsolete.keys r).2.2.1

@[simp] theorem forgetNodes_gcReplica : (r.forgetNodes obsolete).gc.gcReplica = r.gc.gcReplica :=
  (forgetLoop obsolete.keys r).2.2.2.1

theorem forgetNodes_context :
    (r.forgetNodes obsolete).dvv.context = removeNodes r.dvv.context obsolete.keys :=
  (forgetLoop obsolete.keys r).2.2.2.2.1

theorem forgetNodes_matrixClock :
    (r.forgetNodes obsolete).gc.matrixClock =
      r.gc.matrixClock.map (MatrixClock.forget · obsolete.keys) :=
  (forgetLoop obsolete.keys r).2.2.2.2.2

@[simp] theorem performGc_gc : (r.performGc v).gc = r.gc := rfl
@[simp] theorem performGc_dvv : (r.performGc v).dvv = r.dvv := rfl
@[simp] theorem setEpoch_crdt (n : Nat) : (r.setEpoch n).crdt = r.crdt := rfl
@[simp] theorem setEpoch_dvv (n : Nat) : (r.setEpoch n).dvv = r.dvv := rfl
@[simp] theorem setEpoch_epoch (n : Nat) : (r.setEpoch n).gc.epoch = n := rfl
@[simp] theorem setEpoch_gcReplica (n : Nat) : (r.setEpoch n).gc.gcReplica = r.gc.gcReplica := rfl
@[simp] theorem setEpoch_matrixClock (n : Nat) :
    (r.setEpoch n).gc.matrixClock = r.gc.matrixClock := rfl

/-- Forgetting nodes keeps what the vector knows about the others. -/
theorem effectiveCounter_forgetNodes {k : NodeId} (hk : k ∉ obsolete) :
    (r.forgetNodes obsolete).dvv.effectiveCounter k = r.dvv.effectiveCounter k := by
  have hk' : k ∉ obsolete.keys := fun h => hk (AList.mem_keys.mpr h)
  simp only [DotVersionVector.effectiveCounter, forgetNodes_dot, forgetNodes_context,
    counterAt_removeNodes, if_neg hk']

@[simp] theorem forgetNodes_empty : r.forgetNodes ∅ = r := rfl

/-! ## A commit that changes nothing -/

/-- No tombstone lies under the frontier left by the obsolete nodes, and no obsolete node is
mentioned by the vector's context or by the matrix clock. -/
structure NothingToForget (r : Replica E id) (vStable : CausalContext) (obsolete : HashSet NodeId) :
    Prop where
  tombstones : ∀ a d, r.crdt.tombstones.lookup a = some d →
    (frontierDvv id (removeNodes vStable obsolete.keys)).dominatesDot d = false
  context : ∀ p ∈ obsolete, p ∉ r.dvv.context
  rows : ∀ mc, r.gc.matrixClock = some mc → ∀ p ∈ obsolete, p ∉ mc
  columns : ∀ mc, r.gc.matrixClock = some mc → ∀ p ∈ obsolete,
    ∀ k ctx, mc.lookup k = some ctx → p ∉ ctx

theorem forgetNode_eq_self {p : NodeId} (hctx : p ∉ r.dvv.context)
    (hrow : ∀ mc, r.gc.matrixClock = some mc → p ∉ mc)
    (hcol : ∀ mc, r.gc.matrixClock = some mc → ∀ k ctx, mc.lookup k = some ctx → p ∉ ctx) :
    r.forgetNode p = r := by
  obtain ⟨⟨epoch, gcReplica, matrixClock, hmc⟩, crdt, ⟨dot, context⟩, howner⟩ := r
  have hdvv : context.erase p = context := AList.erase_eq_self hctx
  cases matrixClock with
  | none =>
      simp [forgetNode, GcCoordinator.removeMatrixClockColumn, GcCoordinator.removeMatrixClockRow,
      GcCoordinator.modifyMatrix, DotVersionVector.remove, hdvv]
  | some mc =>
    have hmatrix : ((AList.erase p mc).mapValues fun ctx => ctx.erase p) = mc := by
      rw [AList.erase_eq_self (hrow mc rfl)]
      exact AList.mapValues_eq_self fun k ctx hk => AList.erase_eq_self (hcol mc rfl k ctx hk)
    simp [forgetNode, GcCoordinator.removeMatrixClockColumn, GcCoordinator.removeMatrixClockRow,
      GcCoordinator.modifyMatrix, DotVersionVector.remove, hdvv, hmatrix]

@[simp] theorem prepareCommit_epoch (n : Nat) :
    (InitiateGc.prepareCommit r n v obsolete).2.2.epoch = n :=
  rfl

theorem prepareCommit_eq_self_iff [DecidableEq E] (n : Nat) :
    (InitiateGc.prepareCommit r n v obsolete).1 = r ↔ r.NothingToForget v obsolete := by
  have hperform : (InitiateGc.prepareCommit r n v obsolete).1 =
      (r.forgetNodes obsolete).performGc (removeNodes v obsolete.keys) := rfl
  rw [hperform]
  constructor
  · intro heq
    have hcrdt : r.crdt.performGc (frontierDvv id (removeNodes v obsolete.keys)) = r.crdt := by
      have := congrArg Replica.crdt heq
      rwa [performGc, forgetNodes_crdt] at this
    have hctx : removeNodes r.dvv.context obsolete.keys = r.dvv.context := by
      have := congrArg (fun s : Replica E id => s.dvv.context) heq
      rwa [performGc_dvv, forgetNodes_context] at this
    have hmatrix : r.gc.matrixClock.map (MatrixClock.forget · obsolete.keys) =
        r.gc.matrixClock := by
      have := congrArg (fun s : Replica E id => s.gc.matrixClock) heq
      rwa [performGc_gc, forgetNodes_matrixClock] at this
    refine ⟨fun a d ha => ?_, fun p hp => ?_, fun mc hmc p hp => ?_, fun mc hmc p hp k ctx hk => ?_⟩
    · rw [← hcrdt, OrSet.lookup_tombstones_performGc] at ha
      rw [← Bool.not_eq_true, DotVersionVector.dominatesDot_iff]
      exact ha.2
    · have hnone := lookup_removeNodes obsolete.keys r.dvv.context p
      rw [if_pos (AList.mem_keys.mp hp), hctx] at hnone
      exact AList.lookup_eq_none.mp hnone
    · rw [hmc, Option.map_some, Option.some.injEq] at hmatrix
      have hnone := MatrixClock.lookup_forget obsolete.keys mc p
      rw [if_pos (AList.mem_keys.mp hp), hmatrix] at hnone
      exact AList.lookup_eq_none.mp hnone
    · rw [hmc, Option.map_some, Option.some.injEq] at hmatrix
      have hrow := MatrixClock.lookup_forget obsolete.keys mc k
      rw [hmatrix, hk] at hrow
      split at hrow
      · cases hrow
      · rw [Option.map_some, Option.some.injEq] at hrow
        have hnone := lookup_removeNodes obsolete.keys ctx p
        rw [if_pos (AList.mem_keys.mp hp), ← hrow] at hnone
        exact AList.lookup_eq_none.mp hnone
  · intro h
    have hforget : r.forgetNodes obsolete = r := by
      have hone : ∀ p ∈ obsolete.keys, r.forgetNode p = r := fun p hp => by
        have hp' := AList.mem_keys.mpr hp
        exact r.forgetNode_eq_self (h.context p hp') (fun mc hmc => h.rows mc hmc p hp')
          fun mc hmc => h.columns mc hmc p hp'
      unfold forgetNodes
      generalize obsolete.keys = l at hone
      induction l with
      | nil => rfl
      | cons p l ih =>
        rw [List.foldl_cons, hone p (by simp)]
        exact ih fun q hq => hone q (List.mem_cons_of_mem _ hq)
    have hgc : r.crdt.performGc (frontierDvv id (removeNodes v obsolete.keys)) = r.crdt := by
      unfold OrSet.performGc
      rw [AList.retain_eq_self]
      intro a d ha
      rw [h.tombstones a d ha]
      rfl
    rw [hforget, performGc, hgc]

end Replica

end ExperimentalCrdt
