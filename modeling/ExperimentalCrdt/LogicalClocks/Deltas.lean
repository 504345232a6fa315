import ExperimentalCrdt.LogicalClocks.Causality
import ExperimentalCrdt.LogicalClocks.DotInvariant

/-!
# Deltas of dotted version vectors

`delta_since` compares the own counter of the dot and the other counters of the context with what
the remote knows (`comparedCounter`), and puts into the delta what is above. While the dot is
outside the context these are all the counters there are, so the delta is enough for the remote and
has nothing that the remote knows (`deltaSince_sufficient_and_minimal`).
-/

namespace ExperimentalCrdt

namespace DotVersionVector

variable (d : DotVersionVector) (K : CausalContext) (n : NodeId)

/-- The counter that `deltaSince` compares. -/
def comparedCounter : Nat := if n = d.dot.nodeId then d.dot.counter else counterAt d.context n

theorem comparedCounter_le_effectiveCounter : d.comparedCounter n ≤ d.effectiveCounter n := by
  unfold comparedCounter effectiveCounter
  dsimp only
  split
  · omega
  · omega

theorem comparedCounter_event :
    d.event.comparedCounter n = if n = d.dot.nodeId then d.dot.counter + 1
      else d.comparedCounter n := by
  unfold comparedCounter
  rw [event_dot_nodeId, event_dot_counter]
  split
  · rfl
  · next hn =>
    have hctx : counterAt d.event.context n = d.effectiveCounter n := by
      rw [← counterAt_effectiveMap]
      rfl
    rw [hctx, effectiveCounter, if_neg hn]

theorem comparedCounter_mergeEntry (k : NodeId) (c : Nat) :
    (d.mergeEntry k c).comparedCounter n =
      if k = n then max (d.comparedCounter n) c else d.comparedCounter n := by
  unfold comparedCounter
  rw [mergeEntry_dot_nodeId]
  by_cases hn : n = d.dot.nodeId
  · rw [if_pos hn, if_pos hn, dotCounter_mergeEntry, hn]
  · rw [if_neg hn, if_neg hn, mergeEntry]
    have hne : ∀ c', k = d.dot.nodeId →
        counterAt (d.context.upsert k fun e => max (e.getD 0) c') n = counterAt d.context n := by
      intro c' hk
      have hkn : k ≠ n := fun heq => hn (heq.symm.trans hk)
      rw [counterAt_upsert_max, if_neg hkn]
    split_ifs with hk hlt hkn hgt hkn hkn hkn
    · exact absurd (hkn.symm.trans hk) hn
    · exact hne _ hk
    · exact absurd (hkn.symm.trans hk) hn
    · exact hne _ hk
    · exact absurd (hkn.symm.trans hk) hn
    · rfl
    · rw [counterAt_upsert_max, if_pos hkn]
    · rw [counterAt_upsert_max, if_neg hkn]

theorem comparedCounter_merge (d' : DotVersionVector) :
    (d.merge d').comparedCounter n = max (d.comparedCounter n) (d'.effectiveCounter n) := by
  rw [merge, AList.foldl_max d'.effectiveMap mergeEntry (comparedCounter · n) n
    (fun s k v => comparedCounter_mergeEntry s n k v) d]
  congr 1
  exact counterAt_effectiveMap d' n

theorem mem_deltaSince_context :
    n ∈ (d.deltaSince K).context ↔ n ≠ d.dot.nodeId ∧ counterAt K n < d.comparedCounter n := by
  have hctx : n ≠ d.dot.nodeId → counterAt d.effectiveMap n = d.comparedCounter n := by
    intro hne
    rw [counterAt_effectiveMap, comparedCounter, effectiveCounter, if_neg hne, if_neg hne]
  rw [AList.mem_iff_lookup]
  simp only [lookup_deltaSince_context, Option.filter_eq_some_iff, decide_eq_true_eq]
  constructor
  · rintro ⟨c, hc, hlt, hne⟩
    rw [← hctx hne, counterAt_of_lookup hc]
    exact ⟨hne, hlt⟩
  · rintro ⟨hne, hlt⟩
    rw [← hctx hne] at hlt
    obtain ⟨c, hc⟩ :=
      AList.mem_iff_lookup.mp (mem_of_counterAt_pos (Nat.lt_of_le_of_lt (Nat.zero_le _) hlt))
    rw [counterAt_of_lookup hc] at hlt
    exact ⟨c, hc, hlt, hne⟩

/-- **There is nothing to send exactly when** the remote has reached every compared counter. -/
theorem deltaSince_nothing_iff :
    ((d.deltaSince K).dot.counter = 0 ∧ (d.deltaSince K).context.entries.isEmpty = true) ↔
      ∀ n, d.comparedCounter n ≤ counterAt K n := by
  have hdot : (d.deltaSince K).dot.counter = 0 ↔ d.dot.counter ≤ counterAt K d.dot.nodeId := by
    show (if counterAt K d.dot.nodeId < d.dot.counter then d.dot.counter else 0) = 0 ↔ _
    split
    · omega
    · omega
  have hctx : (d.deltaSince K).context.entries.isEmpty = true ↔
      ∀ n, n ∉ (d.deltaSince K).context := by
    rw [List.isEmpty_iff]
    constructor
    · intro hnil n hn
      have hkeys : n ∈ (d.deltaSince K).context.entries.map Sigma.fst := AList.mem_keys.mp hn
      rw [hnil] at hkeys
      cases hkeys
    · intro hnone
      rw [AList.eq_empty_of_forall_notMem hnone]
      rfl
  rw [hdot, hctx]
  constructor
  · rintro ⟨hown, hnone⟩ n
    by_cases hn : n = d.dot.nodeId
    · rw [comparedCounter, if_pos hn, hn]
      exact hown
    · by_contra hlt
      exact hnone n ((d.mem_deltaSince_context K n).mpr ⟨hn, Nat.lt_of_not_le hlt⟩)
  · intro h
    refine ⟨?_, fun n hn => ?_⟩
    · have := h d.dot.nodeId
      rwa [comparedCounter, if_pos rfl] at this
    · have hlt := ((d.mem_deltaSince_context K n).mp hn).2
      have := h n
      omega

/-! ## Sufficient and minimal -/

theorem DotOutside.comparedCounter_eq (h : d.DotOutside) :
    d.comparedCounter n = d.effectiveCounter n := by
  unfold comparedCounter
  split
  · next hn => rw [hn, h.effectiveCounter_own]
  · next hn => rw [effectiveCounter, if_neg hn]

theorem DotOutside.effectiveCounter_deltaSince (h : d.DotOutside) :
    (d.deltaSince K).effectiveCounter n = if counterAt K n < d.effectiveCounter n
      then d.effectiveCounter n else 0 := by
  by_cases hn : n = d.dot.nodeId
  · have hctx : counterAt (d.deltaSince K).context n = 0 :=
      counterAt_of_notMem fun hmem => ((d.mem_deltaSince_context K n).mp hmem).1 hn
    show (if n = d.dot.nodeId then max (counterAt (d.deltaSince K).context n)
      (d.deltaSince K).dot.counter
      else counterAt (d.deltaSince K).context n) = _
    rw [if_pos hn, hctx, Nat.zero_max, hn, h.effectiveCounter_own]
    rfl
  · show (if n = d.dot.nodeId then max (counterAt (d.deltaSince K).context n)
      (d.deltaSince K).dot.counter
      else counterAt (d.deltaSince K).context n) = _
    rw [if_neg hn, ← counterAt_effectiveMap]
    cases hl : d.effectiveMap.lookup n with
    | none => simp [counterAt, lookup_deltaSince_context, hl]
    | some c =>
      have hctx : (d.deltaSince K).context.lookup n = if counterAt K n < c
          then some c else none := by
        rw [lookup_deltaSince_context, hl]
        simp [Option.filter, hn]
      rw [counterAt_of_lookup hl, counterAt, hctx]
      split
      · rfl
      · rfl

/-- **A delta is sufficient and minimal**, for every vector that events and merges make out of a new
one and every remote: merged into the remote it gives all that the vector would give, what it
carries is above what the remote knew, and it is empty exactly when the remote descends the
vector. -/
theorem deltaSince_sufficient_and_minimal (nodeId : NodeId) (ops : List Operation)
    (r : DotVersionVector) :
    let s := ops.foldl perform (new nodeId)
    let delta := s.deltaSince r.effectiveMap
    (∀ n, (r.merge delta).effectiveCounter n = (r.merge s).effectiveCounter n) ∧
      (∀ n, 0 < delta.effectiveCounter n → r.effectiveCounter n < delta.effectiveCounter n) ∧
      (delta.dot.counter = 0 ∧ delta.context = ∅ ↔ r.descends s = true) := by
  intro s delta
  have hout : s.DotOutside := (run_invariant ops (dotOutside_new nodeId)).1
  have hdelta : ∀ n, delta.effectiveCounter n =
      if r.effectiveCounter n < s.effectiveCounter n then s.effectiveCounter n else 0 := by
    intro n
    rw [← counterAt_effectiveMap r]
    exact hout.effectiveCounter_deltaSince s r.effectiveMap n
  refine ⟨fun n => ?_, fun n hpos => ?_, ?_⟩
  · rw [effectiveCounter_merge, effectiveCounter_merge, hdelta]
    split
    · rfl
    · omega
  · rw [hdelta] at hpos ⊢
    split at hpos
    · next hlt =>
      rw [if_pos hlt]
      exact hlt
    · omega
  · have hempty : delta.context = ∅ ↔ delta.context.entries.isEmpty = true := by
      rw [List.isEmpty_iff]
      exact ⟨fun h => h ▸ rfl, fun h => AList.ext h⟩
    rw [hempty, deltaSince_nothing_iff, descends_iff]
    refine forall_congr' fun n => ?_
    rw [hout.comparedCounter_eq, counterAt_effectiveMap]

end DotVersionVector

end ExperimentalCrdt
