import ExperimentalCrdt.Gc.InitiateGc

/-!
# Skipped epochs

The published metadata is overwritten by every commit, so a replica that polls too slowly jumps from
its epoch straight to the latest one. `observeAll` is the replica that did see every epoch on the
way. Both start from the same state, so the comparison is between what all frontiers and obsolete
sets together take away and what the last ones take away alone. The first is computed by induction
on the published sequence (`observeAll_tombstones`, `observeAll_context`, `observeAll_entry`), the
second is its case of a single epoch.

A replica that commits an epoch itself jumps in the same way: `prepareCommit_eq_observe` says that
its local part is the observation of the metadata it is about to publish.
-/

namespace ExperimentalCrdt

/-- Epochs `e + 1, e + 2, …`, as consecutive commits number them. -/
def Consecutive : Nat → List EpochMetadata → Prop
  | _, [] => True
  | e, m :: ms => m.epoch = e + 1 ∧ Consecutive m.epoch ms

/-- `p` is obsolete in one of the epochs. -/
def Obsoleted (ms : List EpochMetadata) (p : NodeId) : Prop := ∃ m ∈ ms, p ∈ m.obsoleteDots

instance (ms : List EpochMetadata) (p : NodeId) : Decidable (Obsoleted ms p) :=
  inferInstanceAs (Decidable (∃ m ∈ ms, p ∈ m.obsoleteDots))

@[simp] theorem obsoleted_nil (p : NodeId) : ¬ Obsoleted [] p := by simp [Obsoleted]

@[simp] theorem obsoleted_cons (m : EpochMetadata) (ms : List EpochMetadata) (p : NodeId) :
    Obsoleted (m :: ms) p ↔ p ∈ m.obsoleteDots ∨ Obsoleted ms p := List.exists_mem_cons_iff _ _ _

/-- What row `k` of the matrix clock says about `n`: no row, no entry, or a counter. -/
def GcCoordinator.entry (self : GcCoordinator) (k n : NodeId) : Option (Option Nat) :=
  (self.matrixClock.bind fun mc => mc.lookup k).map fun ctx => ctx.lookup n

namespace Replica

variable {E : Type} {id : NodeId} (r : Replica E id) (m : EpochMetadata)

/-- Observe the epochs one after another. -/
def observeAll (r : Replica E id) (ms : List EpochMetadata) : Replica E id :=
  ms.foldl observeEpochChange r

/-! ## One epoch -/

section observe

variable (hlt : r.gc.epoch < m.epoch)
include hlt

theorem observeEpochChange_of_lt :
    r.observeEpochChange m = ((r.performGc m.vStable).setEpoch m.epoch).forgetNodes
      m.obsoleteDots :=
  if_neg (Nat.not_le.mpr hlt)

theorem observe_epoch : (r.observeEpochChange m).gc.epoch = m.epoch := by
  rw [r.observeEpochChange_of_lt m hlt, forgetNodes_epoch, setEpoch_epoch]

theorem observe_tombstones [DecidableEq E] (a d : Dot) :
    (r.observeEpochChange m).crdt.tombstones.lookup a = some d ↔
      r.crdt.tombstones.lookup a = some d ∧ (frontierDvv id m.vStable).dominatesDot d = false := by
  rw [r.observeEpochChange_of_lt m hlt, forgetNodes_crdt, setEpoch_crdt, ← Bool.not_eq_true,
    DotVersionVector.dominatesDot_iff]
  exact r.crdt.lookup_tombstones_performGc a d _

theorem observe_context (p : NodeId) :
    (r.observeEpochChange m).dvv.context.lookup p =
      if p ∈ m.obsoleteDots then none else r.dvv.context.lookup p := by
  rw [r.observeEpochChange_of_lt m hlt, forgetNodes_context, lookup_removeNodes]
  simp only [← AList.mem_keys, setEpoch_dvv, performGc_dvv]

theorem observe_entry (k n : NodeId) :
    (r.observeEpochChange m).gc.entry k n =
      if k ∈ m.obsoleteDots then none
      else if n ∈ m.obsoleteDots then (r.gc.entry k n).map fun _ => none
      else r.gc.entry k n := by
  rw [r.observeEpochChange_of_lt m hlt]
  unfold GcCoordinator.entry
  rw [forgetNodes_matrixClock, setEpoch_matrixClock, performGc_gc]
  cases r.gc.matrixClock with
  | none => simp
  | some mc =>
    simp only [Option.map_some, Option.bind_some]
    rw [MatrixClock.lookup_forget]
    simp only [← AList.mem_keys]
    by_cases hk : k ∈ m.obsoleteDots
    · simp [hk]
    · simp only [if_neg hk]
      cases mc.lookup k with
      | none => simp
      | some ctx =>
        simp only [Option.map_some, lookup_removeNodes, ← AList.mem_keys]
        by_cases hn : n ∈ m.obsoleteDots
        · simp [hn]
        · simp [hn]

end observe

/-! ## A sequence of epochs -/

variable (ms : List EpochMetadata)

theorem observeAll_tombstones [DecidableEq E] :
    ∀ (r : Replica E id), Consecutive r.gc.epoch ms → ∀ a d : Dot,
    (r.observeAll ms).crdt.tombstones.lookup a = some d ↔
      r.crdt.tombstones.lookup a = some d ∧
        ∀ m ∈ ms, (frontierDvv id m.vStable).dominatesDot d = false := by
  induction ms with
  | nil => intro r _ a d; simp [observeAll]
  | cons m ms ih =>
    intro r hc a d
    obtain ⟨hm, hms⟩ := hc
    have hlt : r.gc.epoch < m.epoch := by omega
    rw [← r.observe_epoch m hlt] at hms
    have hrest := ih (r.observeEpochChange m) hms a d
    rw [r.observe_tombstones m hlt] at hrest
    rw [show r.observeAll (m :: ms) = (r.observeEpochChange m).observeAll ms from rfl, hrest,
      List.forall_mem_cons, and_assoc]

theorem observeAll_context : ∀ (r : Replica E id), Consecutive r.gc.epoch ms → ∀ p : NodeId,
    (r.observeAll ms).dvv.context.lookup p =
      if Obsoleted ms p then none else r.dvv.context.lookup p := by
  induction ms with
  | nil => intro r _ p; simp [observeAll]
  | cons m ms ih =>
    intro r hc p
    obtain ⟨hm, hms⟩ := hc
    have hlt : r.gc.epoch < m.epoch := by omega
    rw [← r.observe_epoch m hlt] at hms
    rw [show r.observeAll (m :: ms) = (r.observeEpochChange m).observeAll ms from rfl,
      ih (r.observeEpochChange m) hms p, r.observe_context m hlt]
    by_cases hp : p ∈ m.obsoleteDots <;> simp [hp]

theorem observeAll_entry : ∀ (r : Replica E id), Consecutive r.gc.epoch ms → ∀ k n : NodeId,
    (r.observeAll ms).gc.entry k n =
      if Obsoleted ms k then none
      else if Obsoleted ms n then (r.gc.entry k n).map fun _ => none
      else r.gc.entry k n := by
  induction ms with
  | nil => intro r _ k n; simp [observeAll]
  | cons m ms ih =>
    intro r hc k n
    obtain ⟨hm, hms⟩ := hc
    have hlt : r.gc.epoch < m.epoch := by omega
    rw [← r.observe_epoch m hlt] at hms
    rw [show r.observeAll (m :: ms) = (r.observeEpochChange m).observeAll ms from rfl,
      ih (r.observeEpochChange m) hms k n, r.observe_entry m hlt]
    by_cases hk : k ∈ m.obsoleteDots
    · simp [hk]
    · by_cases hn : n ∈ m.obsoleteDots <;> simp [hk, hn, Function.comp_def]

/-! ## Jumping to the last epoch -/

/-- Equal tombstones, vector contexts and matrix clocks. -/
structure SameKnowledge (r r' : Replica E id) : Prop where
  tombstones : ∀ a d, r.crdt.tombstones.lookup a = some d ↔ r'.crdt.tombstones.lookup a = some d
  context : ∀ p, r.dvv.context.lookup p = r'.dvv.context.lookup p
  matrix : ∀ k n, r.gc.entry k n = r'.gc.entry k n

/-- Whatever a skipped epoch takes from `r`, the last one takes too: its frontier covers every
tombstone that a skipped frontier covers, and its obsolete set contains every node of a skipped
obsolete set that the vector's context or a remaining part of the matrix clock mentions. -/
structure LastCoversSkipped (r : Replica E id) (skipped : List EpochMetadata)
    (last : EpochMetadata) :
    Prop where
  tombstones : ∀ a d, r.crdt.tombstones.lookup a = some d → ∀ m ∈ skipped,
    (frontierDvv id m.vStable).dominatesDot d = true →
      (frontierDvv id last.vStable).dominatesDot d = true
  context : ∀ p, Obsoleted skipped p → p ∉ last.obsoleteDots → p ∉ r.dvv.context
  rows : ∀ p, Obsoleted skipped p → p ∉ last.obsoleteDots → ∀ n, r.gc.entry p n = none
  columns : ∀ p, Obsoleted skipped p → p ∉ last.obsoleteDots →
    ∀ k, k ∉ last.obsoleteDots → ∀ c, r.gc.entry k p ≠ some (some c)

theorem Consecutive.lt_last (skipped : List EpochMetadata) (last : EpochMetadata) : ∀ e : Nat,
    Consecutive e (skipped ++ [last]) → e < last.epoch := by
  induction skipped with
  | nil =>
    intro e h
    have hlast : last.epoch = e + 1 := h.1
    omega
  | cons m ms ih =>
    intro e h
    have hm : m.epoch = e + 1 := h.1
    have hlt := ih m.epoch h.2
    omega

theorem sameKnowledge_iff [DecidableEq E] (skipped : List EpochMetadata) (last : EpochMetadata)
    (hc : Consecutive r.gc.epoch (skipped ++ [last])) :
    SameKnowledge (r.observeAll (skipped ++ [last])) (r.observeEpochChange last) ↔
      LastCoversSkipped r skipped last := by
  have hlt := Consecutive.lt_last skipped last _ hc
  have hob : ∀ p, Obsoleted (skipped ++ [last]) p ↔
      Obsoleted skipped p ∨ p ∈ last.obsoleteDots := by
    intro p
    simp [Obsoleted, or_and_right, exists_or]
  constructor
  · intro h
    refine ⟨fun a d ha m hm hdom => ?_, fun p hp hnot => ?_, fun p hp hnot n => ?_,
      fun p hp hnot k hk c hentry => ?_⟩
    · by_contra hlast
      have hkept := (h.tombstones a d).mpr ((r.observe_tombstones last hlt a d).mpr
        ⟨ha, by simpa using hlast⟩)
      have hm' := ((r.observeAll_tombstones _ hc a d).mp hkept).2 m (List.mem_append_left _ hm)
      rw [hm'] at hdom
      cases hdom
    · have hp' := h.context p
      rw [r.observeAll_context _ hc, r.observe_context last hlt, if_pos ((hob p).mpr (Or.inl hp)),
        if_neg hnot] at hp'
      exact AList.lookup_eq_none.mp hp'.symm
    · have hp' := h.matrix p n
      rw [r.observeAll_entry _ hc, r.observe_entry last hlt, if_pos ((hob p).mpr (Or.inl hp)),
        if_neg hnot] at hp'
      split at hp'
      · exact Option.map_eq_none_iff.mp hp'.symm
      · exact hp'.symm
    · have hk' := h.matrix k p
      rw [r.observeAll_entry _ hc, r.observe_entry last hlt, if_pos ((hob p).mpr (Or.inl hp)),
        if_neg hk, if_neg hnot, hentry] at hk'
      split at hk'
      · cases hk'
      · cases hk'
  · intro h
    refine ⟨fun a d => ?_, fun p => ?_, fun k n => ?_⟩
    · rw [r.observeAll_tombstones _ hc, r.observe_tombstones last hlt, List.forall_mem_append,
        List.forall_mem_singleton]
      constructor
      · exact fun ⟨ha, _, hlast⟩ => ⟨ha, hlast⟩
      · refine fun ⟨ha, hlast⟩ => ⟨ha, fun m hm => ?_, hlast⟩
        by_contra hdom
        rw [h.tombstones a d ha m hm (by simpa using hdom)] at hlast
        cases hlast
    · rw [r.observeAll_context _ hc, r.observe_context last hlt]
      by_cases hlast : p ∈ last.obsoleteDots
      · rw [if_pos ((hob p).mpr (Or.inr hlast)), if_pos hlast]
      · rw [if_neg hlast]
        split
        · next hp =>
          have hskip := ((hob p).mp hp).resolve_right hlast
          exact (AList.lookup_eq_none.mpr (h.context p hskip hlast)).symm
        · rfl
    · rw [r.observeAll_entry _ hc, r.observe_entry last hlt]
      by_cases hk : k ∈ last.obsoleteDots
      · rw [if_pos ((hob k).mpr (Or.inr hk)), if_pos hk]
      · rw [if_neg hk]
        by_cases hks : Obsoleted skipped k
        · -- a skipped row: it was not there
          rw [if_pos ((hob k).mpr (Or.inl hks)), h.rows k hks hk n, Option.map_none, ite_self]
        · rw [if_neg fun hor => ((hob k).mp hor).elim hks hk]
          by_cases hn : n ∈ last.obsoleteDots
          · rw [if_pos ((hob n).mpr (Or.inr hn)), if_pos hn]
          · rw [if_neg hn]
            by_cases hns : Obsoleted skipped n
            · -- a skipped column: the row has no entry there
              rw [if_pos ((hob n).mpr (Or.inl hns))]
              have hcol := h.columns n hns hn k hk
              cases hentry : r.gc.entry k n with
              | none => rfl
              | some c =>
                cases c with
                | none => rfl
                | some c => exact absurd hentry (hcol c)
            · rw [if_neg fun hor => ((hob n).mp hor).elim hns hn]

theorem forgetNodes_performGc_setEpoch (obsolete : HashSet NodeId) (v : CausalContext) (n : Nat) :
    ((r.performGc v).setEpoch n).forgetNodes obsolete =
      ((r.forgetNodes obsolete).performGc v).setEpoch n := by
  unfold forgetNodes
  generalize obsolete.keys = l
  induction l generalizing r with
  | nil => rfl
  | cons p l ih => exact ih (r.forgetNode p)

/-- **A commit does to its own replica** what observing the published metadata would do. -/
theorem prepareCommit_eq_observe (n : Nat) (vStable : CausalContext) (obsolete : HashSet NodeId)
    (hlt : r.gc.epoch < n) :
    (InitiateGc.prepareCommit r n vStable obsolete).1.setEpoch n =
      r.observeEpochChange (InitiateGc.prepareCommit r n vStable obsolete).2.2 := by
  rw [r.observeEpochChange_of_lt _ hlt]
  exact (r.forgetNodes_performGc_setEpoch obsolete _ n).symm

/-- **Skipping epochs is harmless for a replica exactly when** the last epoch covers what the
skipped ones take from it; the epochs may be observed, or the last one committed by the replica
itself. -/
theorem skipped_epochs_harmless_iff [DecidableEq E] (r : Replica E id)
    (skipped : List EpochMetadata) (last : EpochMetadata)
    (hc : Consecutive r.gc.epoch (skipped ++ [last])) :
    (SameKnowledge (r.observeAll (skipped ++ [last])) (r.observeEpochChange last) ↔
      LastCoversSkipped r skipped last) ∧
    ∀ vStable obsolete, last = (InitiateGc.prepareCommit r last.epoch vStable obsolete).2.2 →
      (SameKnowledge (r.observeAll (skipped ++ [last]))
          ((InitiateGc.prepareCommit r last.epoch vStable obsolete).1.setEpoch last.epoch) ↔
        LastCoversSkipped r skipped last) := by
  refine ⟨r.sameKnowledge_iff skipped last hc, fun vStable obsolete hlast => ?_⟩
  rw [r.prepareCommit_eq_observe _ _ _ (Consecutive.lt_last skipped last _ hc), ← hlast]
  exact r.sameKnowledge_iff skipped last hc

end Replica

/-! ## A departed node that comes back -/

open InitiateGc (run World)

/-- `G` and `R` are registered; `P` has departed with final dot `1`. -/
def afterDeparture : Storage String :=
  { Storage.fresh (AList.ofKeys ["G", "R"]) with finalDots := [("P", 1)] }

/-- GC replica `G` knows the last event of `P` and one of its own, and that `R` knows them too. -/
def initiator : Replica String "G" :=
  { gc := (GcCoordinator.new true).updateMatrixClock
      (AList.ofPairs [("R", AList.ofPairs [("P", 1), ("G", 1)])])
    crdt := .new
    dvv := { dot := ⟨"G", 1⟩, context := AList.ofPairs [("P", 1)] }
    dvv_owner := rfl }

/-- `G` after epoch `1`: one more event, which `R` has seen while it still remembered `P`. -/
def initiatorLater (r : Replica String "G") : Replica String "G" :=
  { r with
    gc := r.gc.updateMatrixClock (AList.ofPairs [("R", AList.ofPairs [("P", 1), ("G", 2)])])
    dvv := r.dvv.event
    dvv_owner := r.dvv_owner }

/-- `R`, still at epoch `0`. -/
def slowObserver : Replica String "R" :=
  { gc := .new false
    crdt := .new
    dvv := { dot := ⟨"R", 0⟩, context := AList.ofPairs [("P", 1), ("G", 2)] }
    dvv_owner := rfl }

/-- The metadata of `G`'s two epochs, observed by `R`. -/
theorem skipped_epochs_harmless_slowObserver :
    (slowObserver.observeAll ([⟨1, AList.ofPairs [("G", 1)], AList.ofKeys ["P"]⟩] ++
          [⟨2, AList.ofPairs [("G", 2)], ∅⟩])).SameKnowledge
        (slowObserver.observeEpochChange ⟨2, AList.ofPairs [("G", 2)], ∅⟩) ↔
      slowObserver.LastCoversSkipped [⟨1, AList.ofPairs [("G", 1)], AList.ofKeys ["P"]⟩]
        ⟨2, AList.ofPairs [("G", 2)], ∅⟩ :=
  (Replica.skipped_epochs_harmless_iff slowObserver
    [⟨1, AList.ofPairs [("G", 1)], AList.ofKeys ["P"]⟩]
    ⟨2, AList.ofPairs [("G", 2)], ∅⟩ ⟨rfl, rfl, trivial⟩).1

/-- `G` commits epoch `1` with `P` obsolete and epoch `2` with nothing obsolete; `R` keeps `P` if it
sees only the second. -/
theorem skipped_obsolete_node_stays :
    ∃ o1 o2, run (World.alone fun _ => true) .readEpochMetadata initiator afterDeparture = some o1 ∧
      o1.result = .ok none ∧
      run (World.alone fun _ => true) .readEpochMetadata (initiatorLater o1.replica) o1.storage =
        some o2 ∧
      o2.result = .ok none ∧
      Consecutive slowObserver.gc.epoch
        [o1.storage.readEpochMetadata, o2.storage.readEpochMetadata] ∧
      ¬ (slowObserver.observeAll
        [o1.storage.readEpochMetadata, o2.storage.readEpochMetadata]).SameKnowledge
        (slowObserver.observeEpochChange o2.storage.readEpochMetadata) := by
  refine ⟨_, _, rfl, rfl, rfl, rfl, ⟨by decide, by decide, trivial⟩, fun h => ?_⟩
  exact absurd (h.context "P") (by decide)

end ExperimentalCrdt
