import ExperimentalCrdt.Lib.HashMap

/-!
# Version vectors and dotted version vectors

`logical_clocks/dot_version_vector.rs`. A version vector is a map from node ids to counters in
which an absent node reads as `0`; a `DotVersionVector` keeps the latest own event (`dot`) outside
the vector (`context`). Everything later modules need is phrased through two readings: `counterAt`
for plain vectors and `effectiveCounter` for dotted ones. Join, meet and merge are pointwise
maximum, minimum and maximum under these readings.

A counter is a natural number: nothing here depends on the width of the `u64` of the source.
-/

namespace ExperimentalCrdt

abbrev NodeId := String
abbrev CausalContext := HashMap NodeId Nat

/-- A single causal event identifier: (node, counter). -/
structure Dot where
  nodeId : NodeId
  counter : Nat
deriving DecidableEq, Repr

/-- `map.get(node).copied().unwrap_or(0)`. -/
def counterAt (vv : CausalContext) (nodeId : NodeId) : Nat := (vv.lookup nodeId).getD 0

/-! ## Plain version vectors -/

def vvJoin (a b : CausalContext) : CausalContext :=
  b.foldl (fun out k v => out.upsert k fun e => max (e.getD 0) v) a

def vvMeet (a b : CausalContext) : CausalContext :=
  (a.keys ++ b.keys).dedup.foldl
    (fun out k =>
      let m := min (counterAt a k) (counterAt b k)
      if 0 < m then out.insert k m else out) ∅

def vvLeq (a b : CausalContext) : Bool :=
  (a.keys ++ b.keys).all fun k => decide (counterAt a k ≤ counterAt b k)

/-- Maps are equal when they have the same entries. -/
def vvLt (a b : CausalContext) : Bool :=
  vvLeq a b && !(a.keys ++ b.keys).all fun k => decide (a.lookup k = b.lookup k)

@[simp] theorem counterAt_empty (n : NodeId) : counterAt ∅ n = 0 := by simp [counterAt]

theorem counterAt_of_lookup {vv : CausalContext} {n : NodeId} {c : Nat}
    (h : vv.lookup n = some c) : counterAt vv n = c := by simp [counterAt, h]

theorem counterAt_of_notMem {vv : CausalContext} {n : NodeId} (h : n ∉ vv) :
    counterAt vv n = 0 := by
  simp [counterAt, AList.lookup_eq_none.mpr h]

theorem mem_of_counterAt_pos {vv : CausalContext} {n : NodeId} (h : 0 < counterAt vv n) :
    n ∈ vv := by
  by_contra hn
  rw [counterAt_of_notMem hn] at h
  exact Nat.lt_irrefl 0 h

theorem counterAt_insert (vv : CausalContext) (k n : NodeId) (c : Nat) :
    counterAt (vv.insert k c) n = if n = k then c else counterAt vv n := by
  rw [counterAt, AList.lookup_insert_eq]
  split <;> simp [counterAt]

theorem counterAt_erase (vv : CausalContext) (k n : NodeId) :
    counterAt (vv.erase k) n = if n = k then 0 else counterAt vv n := by
  rw [counterAt, AList.lookup_erase_eq]
  split <;> simp [counterAt]

theorem counterAt_upsert_max (vv : CausalContext) (k n : NodeId) (c : Nat) :
    counterAt (vv.upsert k fun e => max (e.getD 0) c) n =
      if k = n then max (counterAt vv n) c else counterAt vv n := by
  rw [AList.upsert, counterAt_insert]
  by_cases h : n = k
  · subst h; simp [counterAt]
  · rw [if_neg h, if_neg (Ne.symm h)]

theorem counterAt_vvJoin (a b : CausalContext) (n : NodeId) :
    counterAt (vvJoin a b) n = max (counterAt a n) (counterAt b n) :=
  AList.foldl_max b _ (counterAt · n) n (fun s k v => counterAt_upsert_max s k n v) a

theorem lookup_meetLoop (f : NodeId → Nat) (n : NodeId) :
    ∀ (l : List NodeId) (acc : CausalContext), l.Nodup →
      (l.foldl (fun out k => if 0 < f k then out.insert k (f k) else out) acc).lookup n =
        if n ∈ l ∧ 0 < f n then some (f n) else acc.lookup n := by
  intro l
  induction l with
  | nil => intro acc _; simp
  | cons k l ih =>
    intro acc hnd
    obtain ⟨hk, hnd'⟩ := List.nodup_cons.mp hnd
    rw [List.foldl_cons, ih _ hnd']
    by_cases hn : n = k
    · subst hn
      by_cases hpos : 0 < f n
      · rw [if_neg (fun h => hk h.1), if_pos hpos, if_pos ⟨by simp, hpos⟩, AList.lookup_insert]
      · rw [if_neg (fun h => hpos h.2), if_neg hpos, if_neg (fun h => hpos h.2)]
    · by_cases hpos : 0 < f k
      · rw [if_pos hpos, AList.lookup_insert_ne hn]
        simp [hn]
      · rw [if_neg hpos]
        simp [hn]

theorem lookup_vvMeet (a b : CausalContext) (n : NodeId) :
    (vvMeet a b).lookup n =
      if 0 < min (counterAt a n) (counterAt b n) then some (min (counterAt a n) (counterAt b n))
      else none := by
  have h := lookup_meetLoop (fun k => min (counterAt a k) (counterAt b k)) n
    (a.keys ++ b.keys).dedup ∅ (List.nodup_dedup _)
  have hmem : 0 < min (counterAt a n) (counterAt b n) → n ∈ (a.keys ++ b.keys).dedup :=
      fun hpos => by
    rw [List.mem_dedup, List.mem_append, ← AList.mem_keys]
    exact Or.inl (mem_of_counterAt_pos (lt_of_lt_of_le hpos (min_le_left _ _)))
  rw [vvMeet, h]
  by_cases hpos : 0 < min (counterAt a n) (counterAt b n)
  · rw [if_pos ⟨hmem hpos, hpos⟩, if_pos hpos]
  · rw [if_neg (fun h => hpos h.2), if_neg hpos, AList.lookup_empty]

theorem counterAt_vvMeet (a b : CausalContext) (n : NodeId) :
    counterAt (vvMeet a b) n = min (counterAt a n) (counterAt b n) := by
  rw [counterAt, lookup_vvMeet]
  split
  · rfl
  · simp only [Option.getD_none]
    omega

theorem mem_vvMeet {a b : CausalContext} {n : NodeId} (h : n ∈ vvMeet a b) : n ∈ a ∧ n ∈ b := by
  obtain ⟨c, hc⟩ := AList.mem_iff_lookup.mp h
  rw [lookup_vvMeet] at hc
  split at hc
  · next hpos =>
    exact ⟨mem_of_counterAt_pos (lt_of_lt_of_le hpos (min_le_left _ _)),
      mem_of_counterAt_pos (lt_of_lt_of_le hpos (min_le_right _ _))⟩
  · simp at hc

theorem vvLeq_iff {a b : CausalContext} :
    vvLeq a b = true ↔ ∀ n, counterAt a n ≤ counterAt b n := by
  simp only [vvLeq, List.all_eq_true, List.mem_append, decide_eq_true_eq, ← AList.mem_keys]
  constructor
  · intro h n
    by_cases hn : n ∈ a
    · exact h n (Or.inl hn)
    · rw [counterAt_of_notMem hn]
      exact Nat.zero_le _
  · intro h n _
    exact h n

theorem vvLt_iff {a b : CausalContext} :
    vvLt a b = true ↔ (∀ n, counterAt a n ≤ counterAt b n) ∧ ∃ n, a.lookup n ≠ b.lookup n := by
  unfold vvLt
  rw [Bool.and_eq_true, vvLeq_iff, Bool.not_eq_true', List.all_eq_false]
  refine and_congr_right fun _ => ?_
  constructor
  · rintro ⟨n, -, hne⟩
    exact ⟨n, by simpa using hne⟩
  · rintro ⟨n, hne⟩
    refine ⟨n, ?_, by simpa using hne⟩
    rw [List.mem_append, ← AList.mem_keys, ← AList.mem_keys]
    by_contra hnone
    push Not at hnone
    rw [AList.lookup_eq_none.mpr hnone.1, AList.lookup_eq_none.mpr hnone.2] at hne
    exact hne rfl

/-! ## Dotted version vectors -/

/-- The latest own event, stored outside the causal history of all other observed events. -/
structure DotVersionVector where
  dot : Dot
  context : CausalContext
deriving DecidableEq

/-- The frontier as a dotted version vector of `nodeId`, the form `perform_gc` takes it in. -/
def frontierDvv (nodeId : NodeId) (frontier : CausalContext) : DotVersionVector :=
  { dot := ⟨nodeId, counterAt frontier nodeId⟩, context := frontier }

namespace DotVersionVector

/-- A fresh vector: no events yet, nothing known about any node. -/
def new (nodeId : NodeId) : DotVersionVector := { dot := ⟨nodeId, 0⟩, context := ∅ }

/-- Forget a node; the dot stays. -/
def remove (self : DotVersionVector) (nodeId : NodeId) : DotVersionVector :=
  { self with context := self.context.erase nodeId }

def effectiveCounter (self : DotVersionVector) (nodeId : NodeId) : Nat :=
  let counter := counterAt self.context nodeId
  if nodeId = self.dot.nodeId then max counter self.dot.counter else counter

def effectiveMap (self : DotVersionVector) : CausalContext :=
  if 0 < self.dot.counter then
    self.context.upsert self.dot.nodeId fun e => max (e.getD 0) self.dot.counter
  else self.context

def dominatesDot (self : DotVersionVector) (dot : Dot) : Bool :=
  decide (dot.counter ≤ self.effectiveCounter dot.nodeId)

/-- Record a new local event: the current dot retires into the context, the dot advances. -/
def event (self : DotVersionVector) : DotVersionVector :=
  { dot := { self.dot with counter := self.dot.counter + 1 }
    context :=
      if 0 < self.dot.counter then
        self.context.upsert self.dot.nodeId fun e => max (e.getD 0) self.dot.counter
      else self.context }

/-- The body of the loop of `merge`: one node of the remote's effective map. -/
def mergeEntry (self : DotVersionVector) (nid : NodeId) (remoteCounter : Nat) :
    DotVersionVector :=
  if nid = self.dot.nodeId then
    if remoteCounter < self.dot.counter then
      { self with context := self.context.upsert nid fun e => max (e.getD 0) remoteCounter }
    else if self.dot.counter < remoteCounter then
      -- state transfer or rejoin: the remote knows more about us than we do
      { dot := { self.dot with counter := remoteCounter }
        context := self.context.upsert nid fun e => max (e.getD 0) (remoteCounter - 1) }
    else self
  else { self with context := self.context.upsert nid fun e => max (e.getD 0) remoteCounter }

def merge (self other : DotVersionVector) : DotVersionVector :=
  other.effectiveMap.foldl mergeEntry self

def deltaSince (self : DotVersionVector) (remoteKnowledge : CausalContext) : DotVersionVector :=
  { dot :=
      { self.dot with
        counter :=
          if counterAt remoteKnowledge self.dot.nodeId < self.dot.counter then self.dot.counter
          else 0 }
    context :=
      self.effectiveMap.foldl
        (fun ctx nid counter =>
          if counterAt remoteKnowledge nid < counter ∧ nid ≠ self.dot.nodeId then
            ctx.insert nid counter
          else ctx) ∅ }

/-! ### Effective knowledge -/

variable (d d' : DotVersionVector) (n k : NodeId)

@[simp] theorem effectiveCounter_new (nodeId : NodeId) : (new nodeId).effectiveCounter n = 0 := by
  simp [new, effectiveCounter]

@[simp] theorem counterAt_effectiveMap : counterAt d.effectiveMap n = d.effectiveCounter n := by
  rw [effectiveMap, effectiveCounter]
  by_cases hpos : 0 < d.dot.counter
  · rw [if_pos hpos, counterAt_upsert_max]
    by_cases hn : d.dot.nodeId = n
    · rw [if_pos hn, if_pos hn.symm]
    · rw [if_neg hn, if_neg (Ne.symm hn)]
  · rw [if_neg hpos]
    split
    · omega
    · rfl

theorem mem_effectiveMap : n ∈ d.effectiveMap ↔ n ∈ d.context ∨ n = d.dot.nodeId ∧
    0 < d.dot.counter := by
  rw [effectiveMap]
  by_cases hpos : 0 < d.dot.counter
  · rw [if_pos hpos, AList.upsert, AList.mem_insert]
    simp only [hpos, and_true]
    exact Or.comm
  · rw [if_neg hpos]
    simp [hpos]

theorem dotCounter_le_effectiveCounter : d.dot.counter ≤ d.effectiveCounter d.dot.nodeId := by
  rw [effectiveCounter, if_pos rfl]
  exact Nat.le_max_right _ _

@[simp] theorem effectiveCounter_frontierDvv (nodeId : NodeId) (v : CausalContext) :
    (frontierDvv nodeId v).effectiveCounter n = counterAt v n := by
  by_cases h : n = nodeId
  · subst h; simp [frontierDvv, effectiveCounter]
  · simp [frontierDvv, effectiveCounter, h]

@[simp] theorem remove_dot : (d.remove k).dot = d.dot := rfl

@[simp] theorem event_dot_nodeId : d.event.dot.nodeId = d.dot.nodeId := rfl

@[simp] theorem event_dot_counter : d.event.dot.counter = d.dot.counter + 1 := rfl

theorem effectiveCounter_event :
    d.event.effectiveCounter n =
      if n = d.dot.nodeId then max (d.effectiveCounter n) (d.dot.counter + 1)
      else d.effectiveCounter n := by
  have hctx : counterAt d.event.context n = d.effectiveCounter n := by
    rw [← counterAt_effectiveMap]
    rfl
  rw [effectiveCounter, hctx]
  rfl

theorem mem_event_context : n ∈ d.event.context ↔
    n ∈ d.context ∨ n = d.dot.nodeId ∧ 0 < d.dot.counter :=
  mem_effectiveMap d n

/-! ### Merge -/

variable (c : Nat)

@[simp] theorem mergeEntry_dot_nodeId : (d.mergeEntry k c).dot.nodeId = d.dot.nodeId := by
  simp only [mergeEntry]
  split_ifs <;> rfl

theorem effectiveCounter_mergeEntry :
    (d.mergeEntry k c).effectiveCounter n =
      if k = n then max (d.effectiveCounter n) c else d.effectiveCounter n := by
  by_cases hk : k = d.dot.nodeId
  · rw [mergeEntry, if_pos hk]
    by_cases hn : k = n
    · subst hn hk
      rw [if_pos rfl]
      split_ifs with hlt hgt
      · simp only [effectiveCounter, counterAt_upsert_max, if_true]
        omega
      · simp only [effectiveCounter, counterAt_upsert_max, if_true]
        omega
      · simp only [effectiveCounter, if_true]
        omega
    · have hn' : n ≠ d.dot.nodeId := fun h => hn (hk.trans h.symm)
      rw [if_neg hn]
      split_ifs <;> simp [effectiveCounter, counterAt_upsert_max, hn, hn']
  · rw [mergeEntry, if_neg hk]
    simp only [effectiveCounter, counterAt_upsert_max]
    by_cases hn : k = n
    · subst hn
      simp [hk]
    · simp [hn]

theorem dotCounter_mergeEntry :
    (d.mergeEntry k c).dot.counter = if k = d.dot.nodeId then max d.dot.counter c
      else d.dot.counter := by
  rw [mergeEntry]
  split_ifs with hk hlt hgt
  · dsimp only; omega
  · dsimp only; omega
  · omega
  · rfl

theorem mem_mergeEntry_context (h : n ∈ (d.mergeEntry k c).context) : n ∈ d.context ∨ n = k := by
  rw [mergeEntry] at h
  split_ifs at h
  all_goals first
    | exact Or.inl h
    | exact (AList.mem_insert _).mp h |>.symm

private theorem mergeLoop_keeps (l : List (Sigma fun _ : NodeId => Nat)) :
    ∀ d : DotVersionVector,
      (l.foldl (fun s e => s.mergeEntry e.1 e.2) d).dot.nodeId = d.dot.nodeId ∧
      ∀ n ∈ (l.foldl (fun s e => s.mergeEntry e.1 e.2) d).context, n ∈ d.context ∨ n ∈ l.keys := by
  induction l with
  | nil => exact fun d => ⟨rfl, fun n h => Or.inl h⟩
  | cons e l ih =>
    intro d
    obtain ⟨hid, hkeys⟩ := ih (d.mergeEntry e.1 e.2)
    refine ⟨hid.trans (mergeEntry_dot_nodeId d e.1 e.2), fun n hn => ?_⟩
    rcases hkeys n hn with hn | hn
    · rcases mem_mergeEntry_context d n e.1 e.2 hn with hn | rfl
      · exact Or.inl hn
      · exact Or.inr (by simp [List.keys])
    · exact Or.inr (List.mem_cons_of_mem _ hn)

@[simp] theorem merge_dot_nodeId : (d.merge d').dot.nodeId = d.dot.nodeId :=
  (mergeLoop_keeps d'.effectiveMap.entries d).1

theorem mem_merge_context {n : NodeId} (h : n ∈ (d.merge d').context) :
    n ∈ d.context ∨ n ∈ d'.effectiveMap :=
  (mergeLoop_keeps d'.effectiveMap.entries d).2 n h

/-- Merging takes the pointwise maximum of effective knowledge. -/
theorem effectiveCounter_merge :
    (d.merge d').effectiveCounter n = max (d.effectiveCounter n) (d'.effectiveCounter n) := by
  rw [merge, AList.foldl_max d'.effectiveMap mergeEntry (effectiveCounter · n) n
    (fun s k v => effectiveCounter_mergeEntry s n k v) d]
  congr 1
  exact counterAt_effectiveMap d' n

theorem dotCounter_le_merge : d.dot.counter ≤ (d.merge d').dot.counter := by
  rw [merge, AList.foldl]
  generalize d'.effectiveMap.entries = l
  induction l generalizing d with
  | nil => exact Nat.le_refl _
  | cons e l ih =>
    refine Nat.le_trans ?_ (ih (d.mergeEntry e.1 e.2))
    rw [dotCounter_mergeEntry]
    split <;> omega

/-! ### Deltas -/

theorem lookup_deltaSince_context (K : CausalContext) :
    (d.deltaSince K).context.lookup n =
      (d.effectiveMap.lookup n).filter fun counter =>
        decide (counterAt K n < counter ∧ n ≠ d.dot.nodeId) := by
  have hloop := AList.lookup_foldl_insert_filter d.effectiveMap
    (fun nid counter => counterAt K nid < counter ∧ nid ≠ d.dot.nodeId) ∅ n
  rw [AList.lookup_empty, Option.or_none] at hloop
  exact hloop

/-! ### Known dots -/

/-- The dots a vector dominates, as a set. -/
def known : Set Dot := { x | x.counter ≤ d.effectiveCounter x.nodeId }

theorem dominatesDot_iff (x : Dot) : d.dominatesDot x = true ↔ x ∈ d.known := by
  simp [dominatesDot, known]

theorem known_merge : (d.merge d').known = d.known ∪ d'.known := by
  ext x
  simp only [known, Set.mem_ofPred_eq, Set.mem_union, effectiveCounter_merge]
  omega

theorem known_subset_of_le (h : ∀ m, d.effectiveCounter m ≤ d'.effectiveCounter m) :
    d.known ⊆ d'.known :=
  fun x hx => Nat.le_trans hx (h x.nodeId)

end DotVersionVector

end ExperimentalCrdt
