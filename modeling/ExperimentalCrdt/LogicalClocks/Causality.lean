import ExperimentalCrdt.LogicalClocks.VersionVectors

/-!
# The causal order

`dot_version_vector.rs` compares two vectors in three places, each with a loop of its own over the
effective maps: `descends`, `partial_cmp` and, between the maps, `vv_leq`. All of them decide the
order of effective knowledge, the counters `effectiveCounter` read as one function, and in that
order `merge` is the join (`merge_least_upper_bound`).
-/

namespace ExperimentalCrdt

namespace DotVersionVector

/-- Does `self` causally dominate (or equal) `other`? -/
def descends (self other : DotVersionVector) : Bool :=
  let selfEff := self.effectiveMap
  let otherEff := other.effectiveMap
  (selfEff.keys ++ otherEff.keys).all fun nid =>
    !decide (counterAt selfEff nid < counterAt otherEff nid)

/-- The body of the loop of `partial_cmp`: the flags say whether some node has less, and whether
some has more. -/
def compareAt (selfEff otherEff : CausalContext) (flags : Bool × Bool) (nid : NodeId) :
    Bool × Bool :=
  match compare (counterAt selfEff nid) (counterAt otherEff nid) with
  | .lt => (true, flags.2)
  | .gt => (flags.1, true)
  | .eq => flags

def partialCmp (self other : DotVersionVector) : Option Ordering :=
  let selfEff := self.effectiveMap
  let otherEff := other.effectiveMap
  match (selfEff.keys ++ otherEff.keys).dedup.foldl (compareAt selfEff otherEff) (false, false) with
  | (false, false) => some .eq
  | (true, false) => some .lt
  | (false, true) => some .gt
  | (true, true) => none

/-- True when the two vectors are incomparable. -/
def isConcurrentWith (self other : DotVersionVector) : Bool := (self.partialCmp other).isNone

variable {a b c : DotVersionVector}

/-! ## The comparisons -/

theorem mem_keys_of_counterAt_ne {v w : CausalContext} {n : NodeId}
    (h : counterAt v n ≠ counterAt w n) :
    n ∈ v.keys ++ w.keys := by
  rw [List.mem_append, ← AList.mem_keys, ← AList.mem_keys]
  by_contra hnone
  push Not at hnone
  rw [counterAt_of_notMem hnone.1, counterAt_of_notMem hnone.2] at h
  exact h rfl

theorem descends_iff : a.descends b = true ↔ b.effectiveCounter ≤ a.effectiveCounter := by
  unfold descends
  simp only [List.all_eq_true, Bool.not_eq_true', decide_eq_false_iff_not,
    Nat.not_lt, counterAt_effectiveMap]
  constructor
  · intro h n
    by_contra hlt
    refine hlt (h n (mem_keys_of_counterAt_ne ?_))
    rw [counterAt_effectiveMap, counterAt_effectiveMap]
    exact fun heq => hlt heq.ge
  · intro h n _
    exact h n

theorem vvLeq_effectiveMap_iff : vvLeq a.effectiveMap b.effectiveMap = true ↔
    a.effectiveCounter ≤ b.effectiveCounter := by
  rw [vvLeq_iff]
  simp only [counterAt_effectiveMap]
  exact Iff.rfl

theorem foldl_compareAt (v w : CausalContext) (l : List NodeId) (flags : Bool × Bool) :
    l.foldl (compareAt v w) flags =
      (flags.1 || l.any fun n => decide (counterAt v n < counterAt w n),
        flags.2 || l.any fun n => decide (counterAt w n < counterAt v n)) := by
  induction l generalizing flags with
  | nil => simp
  | cons n l ih =>
    rw [List.foldl_cons, ih, compareAt, List.any_cons, List.any_cons]
    rcases lt_trichotomy (counterAt v n) (counterAt w n) with hlt | heq | hgt
    · simp [compare_lt_iff_lt.mpr hlt, hlt, hlt.not_gt]
    · simp [heq]
    · simp [compare_gt_iff_gt.mpr hgt, hgt, hgt.not_gt]

theorem any_lt_iff {v w : CausalContext} {l : List NodeId}
    (hl : ∀ n, counterAt v n ≠ counterAt w n → n ∈ l) :
    (l.any fun n => decide (counterAt v n < counterAt w n)) = !vvLeq w v := by
  apply Bool.eq_iff_iff.mpr
  rw [Bool.not_eq_true', ← Bool.not_eq_true, vvLeq_iff]
  simp only [List.any_eq_true, decide_eq_true_eq, not_forall, Nat.not_le]
  constructor
  · rintro ⟨n, -, hn⟩
    exact ⟨n, hn⟩
  · rintro ⟨n, hn⟩
    exact ⟨n, hl n hn.ne, hn⟩

/-- **`partial_cmp` is what two comparisons with `vv_leq` say.** -/
theorem partialCmp_eq (a b : DotVersionVector) :
    a.partialCmp b =
      match vvLeq a.effectiveMap b.effectiveMap, vvLeq b.effectiveMap a.effectiveMap with
      | true, true => some .eq
      | true, false => some .lt
      | false, true => some .gt
      | false, false => none := by
  have hmem : ∀ n, counterAt a.effectiveMap n ≠ counterAt b.effectiveMap n →
      n ∈ (a.effectiveMap.keys ++ b.effectiveMap.keys).dedup :=
    fun n hn => List.mem_dedup.mpr (mem_keys_of_counterAt_ne hn)
  unfold partialCmp
  simp only [foldl_compareAt, Bool.false_or, any_lt_iff hmem, any_lt_iff fun n hn => hmem n hn.symm]
  cases vvLeq a.effectiveMap b.effectiveMap <;> cases vvLeq b.effectiveMap a.effectiveMap <;> rfl

/-! ## Merge is the join -/

theorem effectiveCounter_merge_eq_sup (a b : DotVersionVector) :
    (a.merge b).effectiveCounter = a.effectiveCounter ⊔ b.effectiveCounter := by
  ext n
  exact effectiveCounter_merge a b n

theorem descends_merge_iff : c.descends (a.merge b) = true ↔
    c.descends a = true ∧ c.descends b = true := by
  rw [descends_iff, descends_iff, descends_iff, effectiveCounter_merge_eq_sup]
  exact sup_le_iff

theorem descends_refl (a : DotVersionVector) : a.descends a = true := descends_iff.mpr le_rfl

theorem descends_trans (hab : a.descends b = true) (hbc : b.descends c = true) :
    a.descends c = true :=
  descends_iff.mpr ((descends_iff.mp hbc).trans (descends_iff.mp hab))

theorem vvLeq_effectiveMap (a b : DotVersionVector) :
    vvLeq a.effectiveMap b.effectiveMap = b.descends a := by
  apply Bool.eq_iff_iff.mpr
  rw [vvLeq_effectiveMap_iff, descends_iff]

/-- **Merge is the least upper bound of the causal order**, for arbitrary vectors: the counters of a
merge are the maxima, so it is commutative, associative and idempotent on effective knowledge; the
comparisons decide one preorder; and a merge descends both sides and is descended by whatever
descends both. -/
theorem merge_least_upper_bound :
    (∀ (a b : DotVersionVector) n, (a.merge b).effectiveCounter n =
      max (a.effectiveCounter n) (b.effectiveCounter n)) ∧
      (∀ (a b : DotVersionVector) n, (a.merge b).effectiveCounter n =
        (b.merge a).effectiveCounter n) ∧
      (∀ (a b c : DotVersionVector) n,
        ((a.merge b).merge c).effectiveCounter n = (a.merge (b.merge c)).effectiveCounter n) ∧
      (∀ (a b : DotVersionVector) n, (a.merge a).effectiveCounter n = a.effectiveCounter n ∧
        ((a.merge b).merge b).effectiveCounter n = (a.merge b).effectiveCounter n) ∧
      (∀ a : DotVersionVector, a.descends a = true) ∧
      (∀ a b c : DotVersionVector, a.descends b = true → b.descends c = true →
        a.descends c = true) ∧
      (∀ a b : DotVersionVector,
        (a.descends b = true ↔ ∀ n, b.effectiveCounter n ≤ a.effectiveCounter n) ∧
        (vvLeq b.effectiveMap a.effectiveMap = a.descends b) ∧
        (a.partialCmp b = some .eq ↔ a.descends b = true ∧ b.descends a = true) ∧
        (a.partialCmp b = some .gt ↔ a.descends b = true ∧ b.descends a = false) ∧
        (a.partialCmp b = some .lt ↔ a.descends b = false ∧ b.descends a = true) ∧
        (a.partialCmp b = none ↔ a.descends b = false ∧ b.descends a = false) ∧
        (a.isConcurrentWith b = true ↔ a.descends b = false ∧ b.descends a = false)) ∧
      ∀ a b : DotVersionVector, (a.merge b).descends a = true ∧ (a.merge b).descends b = true ∧
        ∀ c : DotVersionVector, c.descends a = true → c.descends b = true →
        c.descends (a.merge b) = true := by
  refine ⟨effectiveCounter_merge, fun a b n => ?_, fun a b c n => ?_,
    fun a b n => ⟨?_, ?_⟩, descends_refl,
    fun a b c => descends_trans, fun a b => ?_, fun a b => ?_⟩
  · rw [effectiveCounter_merge_eq_sup, effectiveCounter_merge_eq_sup, sup_comm]
  · simp only [effectiveCounter_merge_eq_sup, sup_assoc]
  · rw [effectiveCounter_merge_eq_sup, sup_idem]
  · rw [effectiveCounter_merge_eq_sup, effectiveCounter_merge_eq_sup, sup_assoc, sup_idem]
  · refine ⟨descends_iff, vvLeq_effectiveMap b a, ?_⟩
    unfold isConcurrentWith
    rw [partialCmp_eq, vvLeq_effectiveMap, vvLeq_effectiveMap]
    cases a.descends b <;> cases b.descends a <;> decide
  · obtain ⟨ha, hb⟩ := descends_merge_iff.mp (descends_refl (a.merge b))
    exact ⟨ha, hb, fun c hca hcb => descends_merge_iff.mpr ⟨hca, hcb⟩⟩

end DotVersionVector

end ExperimentalCrdt
