import ExperimentalCrdt.Lib.Semilattice
import ExperimentalCrdt.LogicalClocks.DotVersionVector
import Mathlib.Order.Lattice

/-!
# The lattice of version vectors

A version vector is read as the function of its counters, and these functions are ordered point by
point. `vv_leq` decides that order and `vv_join` and `vv_meet` read as the join and the meet,
whatever zero entries the maps have. So the lattice laws hold of the readings
(`version_vectors_lattice`), and the frontier that is folded out of several vectors does not depend
on the order in which they come.

`vv_lt` asks in addition that the maps differ, and maps can differ in zero entries alone
(`vvLt_strict_iff`).
-/

namespace ExperimentalCrdt

open Semilattice (foldl_sup_eq foldl_inf_eq)

variable {a b c : CausalContext}

/-! ## Readings -/

theorem vvLeq_iff_le : vvLeq a b = true ↔ counterAt a ≤ counterAt b := vvLeq_iff

theorem counterAt_vvJoin_eq_sup (a b : CausalContext) :
    counterAt (vvJoin a b) = counterAt a ⊔ counterAt b := by
  ext n
  exact counterAt_vvJoin a b n

theorem counterAt_vvMeet_eq_inf (a b : CausalContext) :
    counterAt (vvMeet a b) = counterAt a ⊓ counterAt b := by
  ext n
  exact counterAt_vvMeet a b n

theorem vvJoin_leq_iff : vvLeq (vvJoin a b) c = true ↔ vvLeq a c = true ∧ vvLeq b c = true := by
  rw [vvLeq_iff_le, vvLeq_iff_le, vvLeq_iff_le, counterAt_vvJoin_eq_sup]
  exact sup_le_iff

theorem leq_vvMeet_iff : vvLeq c (vvMeet a b) = true ↔ vvLeq c a = true ∧ vvLeq c b = true := by
  rw [vvLeq_iff_le, vvLeq_iff_le, vvLeq_iff_le, counterAt_vvMeet_eq_inf]
  exact le_inf_iff

theorem vvLeq_refl (a : CausalContext) : vvLeq a a = true := vvLeq_iff_le.mpr le_rfl

theorem vvLeq_trans (hab : vvLeq a b = true) (hbc : vvLeq b c = true) : vvLeq a c = true :=
  vvLeq_iff_le.mpr ((vvLeq_iff_le.mp hab).trans (vvLeq_iff_le.mp hbc))

theorem vvLeq_antisymm_iff : vvLeq a b = true ∧ vvLeq b a = true ↔ counterAt a = counterAt b := by
  rw [vvLeq_iff_le, vvLeq_iff_le]
  exact antisymm_iff

/-- **The lattice of version vectors**: `vv_leq` is a preorder whose equivalence is to have the same
counters, `vv_join` and `vv_meet` are least upper and greatest lower bounds, and what is folded out
of the vectors of a list has the same counters for every order of the list. -/
theorem version_vectors_lattice :
    (∀ a, vvLeq a a = true) ∧
      (∀ a b c, vvLeq a b = true → vvLeq b c = true → vvLeq a c = true) ∧
      (∀ a b, vvLeq a b = true ∧ vvLeq b a = true ↔ ∀ n, counterAt a n = counterAt b n) ∧
      (∀ a b, vvLeq a (vvJoin a b) = true ∧ vvLeq b (vvJoin a b) = true ∧
        ∀ c, vvLeq a c = true → vvLeq b c = true → vvLeq (vvJoin a b) c = true) ∧
      (∀ a b, vvLeq (vvMeet a b) a = true ∧ vvLeq (vvMeet a b) b = true ∧
        ∀ c, vvLeq c a = true → vvLeq c b = true → vvLeq c (vvMeet a b) = true) ∧
      ∀ x xs y ys, (x :: xs).Perm (y :: ys) → ∀ n,
        counterAt (xs.foldl vvJoin x) n = counterAt (ys.foldl vvJoin y) n ∧
          counterAt (xs.foldl vvMeet x) n = counterAt (ys.foldl vvMeet y) n := by
  refine ⟨vvLeq_refl, fun a b c => vvLeq_trans, fun a b => ?_, fun a b => ?_,
    fun a b => ?_, fun x xs y ys hperm n => ?_⟩
  · rw [vvLeq_antisymm_iff]
    exact funext_iff
  · obtain ⟨ha, hb⟩ := vvJoin_leq_iff.mp (vvLeq_refl (vvJoin a b))
    exact ⟨ha, hb, fun c hac hbc => vvJoin_leq_iff.mpr ⟨hac, hbc⟩⟩
  · obtain ⟨ha, hb⟩ := leq_vvMeet_iff.mp (vvLeq_refl (vvMeet a b))
    exact ⟨ha, hb, fun c hca hcb => leq_vvMeet_iff.mpr ⟨hca, hcb⟩⟩
  · have hsame : ∀ v, v ∈ x :: xs ↔ v ∈ y :: ys := fun v => hperm.mem_iff
    exact ⟨congrFun (foldl_sup_eq counterAt_vvJoin_eq_sup hsame) n,
      congrFun (foldl_inf_eq counterAt_vvMeet_eq_inf hsame) n⟩

/-! ## The strict part -/

theorem vvLt_of_leq_of_not_leq (hab : vvLeq a b = true) (hba : vvLeq b a = false) :
    vvLt a b = true := by
  refine vvLt_iff.mpr ⟨vvLeq_iff.mp hab, ?_⟩
  by_contra hsame
  push Not at hsame
  have hback : vvLeq b a = true := vvLeq_iff.mpr fun n => by
    unfold counterAt
    rw [hsame n]
  rw [hback] at hba
  cases hba

theorem lookup_eq_iff_of_counterAt_eq (h : ∀ n, counterAt a n = counterAt b n) :
    (∀ n, a.lookup n = b.lookup n) ↔ ∀ n, n ∈ a ↔ n ∈ b := by
  refine forall_congr' fun n => ?_
  have hn := h n
  unfold counterAt at hn
  constructor
  · intro hlookup
    rw [AList.mem_iff_lookup, AList.mem_iff_lookup, hlookup]
  · intro hmem
    by_cases ha : n ∈ a
    · obtain ⟨v, hv⟩ := AList.mem_iff_lookup.mp ha
      obtain ⟨w, hw⟩ := AList.mem_iff_lookup.mp (hmem.mp ha)
      rw [hv, hw] at hn ⊢
      exact congrArg some hn
    · rw [AList.lookup_eq_none.mpr ha, AList.lookup_eq_none.mpr fun hb => ha (hmem.mpr hb)]

/-- The counters differ, or the vectors mention the same nodes. -/
def ToldApart (a b : CausalContext) : Prop :=
  (∃ n, counterAt a n ≠ counterAt b n) ∨ ∀ n, n ∈ a ↔ n ∈ b

theorem not_leq_of_vvLt (h : ToldApart a b) (hlt : vvLt a b = true) : vvLeq b a = false := by
  rw [← Bool.not_eq_true]
  intro hba
  obtain ⟨hab, n, hne⟩ := vvLt_iff.mp hlt
  have hsame := funext_iff.mp (vvLeq_antisymm_iff.mp ⟨vvLeq_iff.mpr hab, hba⟩)
  rcases h with ⟨m, hm⟩ | hmem
  · exact hm (hsame m)
  · exact hne ((lookup_eq_iff_of_counterAt_eq hsame).mpr hmem n)

/-- **When `vv_lt` is the strict part of `vv_leq`**: exactly if the counters differ, or the vectors
mention the same nodes. -/
theorem vvLt_strict_iff (a b : CausalContext) :
    (vvLt a b = true ↔ vvLeq a b = true ∧ vvLeq b a = false) ↔
      (∃ n, counterAt a n ≠ counterAt b n) ∨ ∀ n, n ∈ a ↔ n ∈ b := by
  constructor
  · intro hstrict
    by_contra hapart
    push Not at hapart
    obtain ⟨hsame, hmem⟩ := hapart
    have hleq := vvLeq_antisymm_iff.mpr (funext hsame)
    have hlt : vvLt a b = true := by
      refine vvLt_iff.mpr ⟨vvLeq_iff.mp hleq.1, ?_⟩
      by_contra hlookup
      push Not at hlookup
      obtain ⟨n, hn⟩ := hmem
      have hiff := (lookup_eq_iff_of_counterAt_eq hsame).mp hlookup n
      tauto
    have hback := (hstrict.mp hlt).2
    rw [hleq.2] at hback
    cases hback
  · intro h
    refine ⟨fun hlt => ⟨vvLeq_iff.mpr (vvLt_iff.mp hlt).1, not_leq_of_vvLt h hlt⟩, ?_⟩
    rintro ⟨hab, hba⟩
    exact vvLt_of_leq_of_not_leq hab hba

/-- A zero entry is below nothing, and `vv_lt` has it below itself both ways. -/
theorem vvLt_not_strict_zeroEntry :
    ∃ a b : CausalContext, (∀ n, counterAt a n = counterAt b n) ∧ vvLt a b = true ∧
    vvLt b a = true := by
  refine ⟨AList.ofPairs [("A", 0)], ∅, fun n => ?_, by decide, by decide⟩
  rw [counterAt_empty]
  show counterAt ((∅ : CausalContext).insert "A" 0) n = 0
  rw [counterAt_insert, counterAt_empty]
  exact ite_self 0

end ExperimentalCrdt
