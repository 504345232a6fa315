import ExperimentalCrdt.Engine.CrdtEngine
import ExperimentalCrdt.LogicalClocks.Deltas

/-!
# When a pull request is answered

The engine answers a pull request with a delta unless the vector has nothing above the requester's
knowledge, and with a request of its own if the requester is ahead somewhere. The first test reads
the own counter from the dot and the others from the context (`comparedCounter`).
-/

namespace ExperimentalCrdt

namespace CrdtEngine

variable {E : Type} {id : NodeId} (self : CrdtEngine E id) (registry : PeerRegistry)
  (fromNode : NodeId) (K : CausalContext)

/-- Two GC replicas always answer each other with a delta. -/
def forced : Bool := self.replica.gc.gcReplica && isGcPeer registry fromNode

theorem deltaPayload_eq_none_iff :
    self.deltaPayload registry fromNode K = none ↔
      self.forced registry fromNode = false ∧
      ∀ n, self.replica.dvv.comparedCounter n ≤ counterAt K n := by
  rw [← DotVersionVector.deltaSince_nothing_iff]
  unfold deltaPayload forced
  dsimp only
  split
  · next h =>
    simp only [Bool.or_eq_true, Bool.not_eq_true', bne_iff_ne, ne_eq] at h
    constructor
    · intro hnone
      cases hnone
    · rintro ⟨hforced, hdot, hctx⟩
      rw [hforced, hdot, hctx] at h
      simp at h
  · next h =>
    simp only [Bool.or_eq_true, Bool.not_eq_true', bne_iff_ne, ne_eq, not_or, Bool.not_eq_true,
      Bool.not_eq_false, not_not] at h
    exact iff_of_true rfl ⟨h.1.1, h.1.2, h.2⟩

theorem deltaPayload_eq_some {delta : OrSetDelta E}
    (h : self.deltaPayload registry fromNode K = some delta) :
    delta = self.replica.crdt.deltaSince K self.replica.dvv := by
  unfold deltaPayload at h
  dsimp only at h
  split at h
  · exact (Option.some.inj h).symm
  · cases h

theorem ourKnowledgeRequest_eq_none_iff :
    self.ourKnowledgeRequest K = none ↔
    ∀ n, counterAt K n ≤ self.replica.dvv.effectiveCounter n := by
  unfold ourKnowledgeRequest
  dsimp only
  have hahead :
      (K.entries.all fun e => decide (e.2 ≤ counterAt self.replica.dvv.effectiveMap e.1)) = true ↔
      ∀ n, counterAt K n ≤ self.replica.dvv.effectiveCounter n := by
    simp only [List.all_eq_true, decide_eq_true_eq, DotVersionVector.counterAt_effectiveMap]
    constructor
    · intro h n
      by_cases hn : n ∈ K
      · obtain ⟨c, hc⟩ := AList.mem_iff_lookup.mp hn
        rw [counterAt_of_lookup hc]
        exact h ⟨n, c⟩ (AList.mem_lookup_iff.mp hc)
      · rw [counterAt_of_notMem hn]
        exact Nat.zero_le _
    · intro h e he
      rw [← counterAt_of_lookup (AList.mem_lookup_iff.mpr he)]
      exact h e.1
  rw [← hahead]
  split
  · next h => exact iff_of_true rfl h
  · next h => exact iff_of_false (fun hnone => by cases hnone) h

theorem ourKnowledgeRequest_eq_some {knowledge : CausalContext}
    (h : self.ourKnowledgeRequest K = some knowledge) :
    knowledge = self.replica.dvv.effectiveMap := by
  unfold ourKnowledgeRequest at h
  dsimp only at h
  split at h
  · cases h
  · exact (Option.some.inj h).symm

/-- A delta is sent when it is forced, or to a remote that is behind. -/
theorem deltaPayload_cases :
    (self.deltaPayload registry fromNode K = none ∧ self.forced registry fromNode = false ∧
        ∀ n, self.replica.dvv.comparedCounter n ≤ counterAt K n) ∨
      (self.deltaPayload registry fromNode K =
        some (self.replica.crdt.deltaSince K self.replica.dvv) ∧
        (self.forced registry fromNode = true ∨
          ∃ n, counterAt K n < self.replica.dvv.comparedCounter n)) := by
  have hiff := self.deltaPayload_eq_none_iff registry fromNode K
  cases hdelta : self.deltaPayload registry fromNode K with
  | none => exact Or.inl ⟨rfl, hiff.mp hdelta⟩
  | some delta =>
    obtain rfl := self.deltaPayload_eq_some registry fromNode K hdelta
    refine Or.inr ⟨rfl, ?_⟩
    by_contra hnone
    push Not at hnone
    rw [hiff.mpr ⟨Bool.eq_false_iff.mpr hnone.1, hnone.2⟩] at hdelta
    cases hdelta

theorem ourKnowledgeRequest_cases :
    (self.ourKnowledgeRequest K = none ∧ ∀ n, counterAt K n ≤ self.replica.dvv.effectiveCounter n) ∨
      (self.ourKnowledgeRequest K = some self.replica.dvv.effectiveMap ∧
        ∃ n, self.replica.dvv.effectiveCounter n < counterAt K n) := by
  have hiff := self.ourKnowledgeRequest_eq_none_iff K
  cases hask : self.ourKnowledgeRequest K with
  | none => exact Or.inl ⟨rfl, hiff.mp hask⟩
  | some knowledge =>
    obtain rfl := self.ourKnowledgeRequest_eq_some K hask
    refine Or.inr ⟨rfl, ?_⟩
    by_contra hnone
    push Not at hnone
    rw [hiff.mpr hnone] at hask
    cases hask

theorem serverPullRequest_of_notMem [DecidableEq E] (h : fromNode ∉ registry) (crdtId : String) :
    (self.serverPullRequest registry fromNode crdtId K).2 = [] := by
  unfold serverPullRequest PushPull.respondToPullRequest PushPull.sendToPeer
  simp only [if_neg h]
  split
  · rfl
  · split <;> rfl

end CrdtEngine

end ExperimentalCrdt
