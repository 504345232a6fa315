import ExperimentalCrdt.LogicalClocks.DotVersionVector

/-!
# The dot stays outside the context

`dot_version_vector.rs` documents the invariant `context[dot.node_id] < dot.counter`, which a vector
without events cannot satisfy. `DotOutside` is the form that every operation keeps, remote vectors
being arbitrary: the context counts fewer own events than the dot, or there are none and it counts
none. It makes the dot the latest own event (`DotOutside.effectiveCounter_own`), and what the
operations do to own and foreign counters follows (`own_counter_grows_by_events`).
-/

namespace ExperimentalCrdt

namespace DotVersionVector

/-- The context counts fewer own events than the dot, or there are none and it counts none. -/
def DotOutside (d : DotVersionVector) : Prop :=
  counterAt d.context d.dot.nodeId < d.dot.counter ∨
    d.dot.counter = 0 ∧ counterAt d.context d.dot.nodeId = 0

instance (d : DotVersionVector) : Decidable d.DotOutside := inferInstanceAs (Decidable (_ ∨ _))

inductive Operation where
  | event
  | merge (other : DotVersionVector)
  | remove (nodeId : NodeId)

def perform (d : DotVersionVector) : Operation → DotVersionVector
  | .event => d.event
  | .merge other => d.merge other
  | .remove nodeId => d.remove nodeId

variable {d : DotVersionVector} {n k : NodeId}

theorem dotOutside_new (nodeId : NodeId) : (new nodeId).DotOutside :=
  Or.inr ⟨rfl, counterAt_empty nodeId⟩

namespace DotOutside

theorem effectiveCounter_own (h : d.DotOutside) :
    d.effectiveCounter d.dot.nodeId = d.dot.counter := by
  rw [effectiveCounter, if_pos rfl]
  unfold DotOutside at h
  omega

theorem event (h : d.DotOutside) : d.event.DotOutside := by
  have hctx : counterAt d.event.context d.dot.nodeId = d.effectiveCounter d.dot.nodeId := by
    rw [← counterAt_effectiveMap]
    rfl
  left
  rw [event_dot_nodeId, event_dot_counter, hctx, h.effectiveCounter_own]
  exact Nat.lt_succ_self _

theorem remove (h : d.DotOutside) : (d.remove k).DotOutside := by
  unfold DotOutside at h ⊢
  rw [remove_dot, show (d.remove k).context = d.context.erase k from rfl, counterAt_erase]
  split
  · omega
  · exact h

theorem mergeEntry (h : d.DotOutside) (c : Nat) : (d.mergeEntry k c).DotOutside := by
  -- the three cases are those of the own id
  unfold DotOutside at h ⊢
  unfold DotVersionVector.mergeEntry
  split_ifs with hk hlt hgt
  · simp only [hk, counterAt_upsert_max, if_true]
    omega
  · simp only [hk, counterAt_upsert_max, if_true]
    omega
  · exact h
  · simp only [counterAt_upsert_max, if_neg hk]
    exact h

theorem merge (h : d.DotOutside) (other : DotVersionVector) : (d.merge other).DotOutside := by
  unfold DotVersionVector.merge AList.foldl
  generalize other.effectiveMap.entries = l
  induction l generalizing d with
  | nil => exact h
  | cons e l ih => exact ih (h.mergeEntry e.2)

theorem perform (h : d.DotOutside) (op : Operation) : (d.perform op).DotOutside := by
  cases op with
  | event => exact h.event
  | merge other => exact h.merge other
  | remove nodeId => exact h.remove

end DotOutside

@[simp] theorem perform_dot_nodeId (op : Operation) : (d.perform op).dot.nodeId = d.dot.nodeId := by
  cases op with
  | event => rfl
  | merge other => exact merge_dot_nodeId d other
  | remove nodeId => rfl

theorem run_invariant (ops : List Operation) (h : d.DotOutside) :
    (ops.foldl perform d).DotOutside ∧ (ops.foldl perform d).dot.nodeId = d.dot.nodeId := by
  induction ops generalizing d with
  | nil => exact ⟨h, rfl⟩
  | cons op ops ih =>
    obtain ⟨hout, hid⟩ := ih (h.perform op)
    exact ⟨hout, hid.trans (perform_dot_nodeId op)⟩

theorem effectiveCounter_event_own (h : d.DotOutside) :
    d.event.effectiveCounter d.dot.nodeId = d.effectiveCounter d.dot.nodeId + 1 := by
  rw [effectiveCounter_event, if_pos rfl, h.effectiveCounter_own]
  omega

theorem effectiveCounter_remove_own : (d.remove k).effectiveCounter d.dot.nodeId =
    if k = d.dot.nodeId then d.dot.counter else d.effectiveCounter d.dot.nodeId := by
  unfold effectiveCounter remove
  rw [counterAt_erase]
  by_cases hk : k = d.dot.nodeId
  · simp [hk]
  · rw [if_neg (Ne.symm hk), if_neg hk]

/-- **What the operations do to the knowledge of own and foreign events**, in every vector that
events, merges with arbitrary vectors and removals make out of a new one. -/
theorem own_counter_grows_by_events (nodeId : NodeId) (ops : List Operation) :
    let d := ops.foldl perform (new nodeId)
    d.dot.nodeId = nodeId ∧
      (counterAt d.context nodeId < d.dot.counter ∨ d.dot.counter = 0 ∧
        counterAt d.context nodeId = 0) ∧
      d.event.effectiveCounter nodeId = d.effectiveCounter nodeId + 1 ∧
      (∀ n, n ≠ nodeId → d.event.effectiveCounter n = d.effectiveCounter n) ∧
      (∀ other n, d.effectiveCounter n ≤ (d.merge other).effectiveCounter n) ∧
      (∀ other, d.effectiveCounter nodeId < (d.merge other).effectiveCounter nodeId →
        d.effectiveCounter nodeId < other.effectiveCounter nodeId) ∧
      ∀ n, (d.remove n).effectiveCounter nodeId = d.effectiveCounter nodeId := by
  intro d
  obtain ⟨hout, hid⟩ : d.DotOutside ∧ d.dot.nodeId = nodeId :=
    run_invariant ops (dotOutside_new nodeId)
  refine ⟨hid, ?_, ?_, ?_, ?_, ?_, ?_⟩
  · rw [← hid]
    exact hout
  · rw [← hid]
    exact effectiveCounter_event_own hout
  · intro n hn
    rw [effectiveCounter_event, hid, if_neg hn]
  · intro other n
    rw [effectiveCounter_merge]
    exact Nat.le_max_left _ _
  · intro other hlt
    rw [effectiveCounter_merge] at hlt
    omega
  · intro n
    rw [← hid, effectiveCounter_remove_own, hout.effectiveCounter_own]
    exact ite_self _

-- the third operation hands the vector a remote one whose context contains its own dot
example : ([.event, .event, .merge ⟨⟨"B", 2⟩, AList.ofPairs [("B", 2), ("A", 7)]⟩].foldl perform
    (new "A")).dot = ⟨"A", 7⟩ := by decide

end DotVersionVector

end ExperimentalCrdt
