import ExperimentalCrdt.Gc.Coordinator

/-!
# What the stable timestamp guarantees

`computeStableTimestamp` either finds nothing (no matrix clock, or a listed member without a row)
or returns a frontier that lies below the context of every listed member and below the row of every
departed node that is not obsolete. `Stable` states this once; the lemmas after it are the readings
of it that the protocol proofs use. The order is `Below`: smaller counters, and no node that the
larger vector does not mention.
-/

namespace ExperimentalCrdt

/-- `v` is pointwise at most `w` and mentions no other nodes. -/
structure Below (v w : CausalContext) : Prop where
  le : ∀ k, counterAt v k ≤ counterAt w k
  keys : ∀ k ∈ v, k ∈ w

namespace Below

variable {u v w : CausalContext}

theorem refl (v : CausalContext) : Below v v := ⟨fun _ => Nat.le_refl _, fun _ h => h⟩

theorem trans (huv : Below u v) (hvw : Below v w) : Below u w :=
  ⟨fun k => Nat.le_trans (huv.le k) (hvw.le k), fun k h => hvw.keys k (huv.keys k h)⟩

theorem empty (v : CausalContext) : Below ∅ v :=
  ⟨fun k => by rw [counterAt_empty]; exact Nat.zero_le _, fun k h => absurd h (AList.notMem_empty
    k)⟩

theorem meet_left (v w : CausalContext) : Below (vvMeet v w) v :=
  ⟨fun k => by rw [counterAt_vvMeet]; exact Nat.min_le_left _ _, fun _ h => (mem_vvMeet h).1⟩

theorem meet_right (v w : CausalContext) : Below (vvMeet v w) w :=
  ⟨fun k => by rw [counterAt_vvMeet]; exact Nat.min_le_right _ _, fun _ h => (mem_vvMeet h).2⟩

end Below

theorem lookup_removeNodes (l : List NodeId) (v : CausalContext) (k : NodeId) :
    (removeNodes v l).lookup k = if k ∈ l then none else v.lookup k := by
  induction l generalizing v with
  | nil => simp [removeNodes]
  | cons p l ih =>
    have hstep : removeNodes v (p :: l) = removeNodes (v.erase p) l := rfl
    rw [hstep, ih, AList.lookup_erase_eq]
    by_cases hp : k = p
    · simp [hp]
    · simp [hp]

theorem counterAt_removeNodes (l : List NodeId) (v : CausalContext) (k : NodeId) :
    counterAt (removeNodes v l) k = if k ∈ l then 0 else counterAt v k := by
  rw [counterAt, lookup_removeNodes]
  split <;> simp [counterAt]

namespace GcCoordinator

variable {contextOf : NodeId → Option CausalContext} {mc : MatrixClock} {nodeId : NodeId}
  {members : List NodeId} {finalDots : HashMap NodeId Nat} {selfClock : CausalContext}

/-- The loop over the members: it passes only members that have a context, and its result lies
below all of their contexts and below what it started from. -/
theorem meetMembers_below (members : List NodeId) : ∀ (acc vLive? : Option CausalContext),
    meetMembers contextOf members acc = some vLive? →
      (∀ p ∈ members, ∃ ctx, contextOf p = some ctx ∧ Below (vLive?.getD ∅) ctx) ∧
      (∀ a, acc = some a → Below (vLive?.getD ∅) a) := by
  induction members with
  | nil =>
    intro acc vLive? h
    obtain rfl := Option.some.inj h
    refine ⟨fun p hp => absurd hp (by simp), fun a ha => ?_⟩
    rw [ha]
    exact Below.refl a
  | cons q members ih =>
    intro acc vLive? h
    rw [meetMembers] at h
    cases hq : contextOf q with
    | none => simp [hq] at h
    | some ctx =>
      rw [hq] at h
      obtain ⟨hmem, hacc⟩ := ih _ _ h
      have hnew := hacc _ rfl
      cases acc with
      | none =>
        refine ⟨fun p hp => ?_, fun a ha => by simp at ha⟩
        rcases List.mem_cons.mp hp with rfl | hp
        · exact ⟨ctx, hq, hnew⟩
        · exact hmem p hp
      | some a =>
        refine ⟨fun p hp => ?_, fun b hb => ?_⟩
        · rcases List.mem_cons.mp hp with rfl | hp
          · exact ⟨ctx, hq, hnew.trans (Below.meet_right a ctx)⟩
          · exact hmem p hp
        · obtain rfl := Option.some.inj hb
          exact hnew.trans (Below.meet_left a ctx)

theorem pendingLoop_below (l : List NodeId) : ∀ v : CausalContext,
    let out := l.foldl
      (fun v p =>
        match mc.lookup p with
        | some ctx => vvMeet v ctx
        | none => v) v
    Below out v ∧ ∀ p ∈ l, ∀ ctx, mc.lookup p = some ctx → Below out ctx := by
  induction l with
  | nil => exact fun v => ⟨Below.refl v, fun p hp => absurd hp (by simp)⟩
  | cons q l ih =>
    intro v
    rw [List.foldl_cons]
    cases hq : mc.lookup q with
    | none =>
      obtain ⟨hv, hrows⟩ := ih v
      refine ⟨hv, fun p hp ctx hctx => ?_⟩
      rcases List.mem_cons.mp hp with rfl | hp
      · rw [hq] at hctx
        cases hctx
      · exact hrows p hp ctx hctx
    | some row =>
      obtain ⟨hv, hrows⟩ := ih (vvMeet v row)
      refine ⟨hv.trans (Below.meet_left v row), fun p hp ctx hctx => ?_⟩
      rcases List.mem_cons.mp hp with rfl | hp
      · rw [hq] at hctx
        obtain rfl := Option.some.inj hctx
        exact hv.trans (Below.meet_right v row)
      · exact hrows p hp ctx hctx

/-- A departed node: mentioned, but not listed. -/
def Departed (mc : MatrixClock) (vLive : CausalContext) (members : List NodeId) (p : NodeId) :
    Prop :=
  (p ∈ mc ∨ p ∈ vLive) ∧ p ∉ members

theorem mem_nonMembers {vLive : CausalContext} {p : NodeId} :
    p ∈ nonMembers mc vLive members ↔ Departed mc vLive members p := by
  rw [nonMembers, AList.mem_ofKeys, List.mem_filter, List.mem_append, Departed, AList.mem_keys,
    AList.mem_keys]
  simp

/-- The result `out` of `computeStableTimestamp` when it finds the live frontier `vLive`. -/
structure Stable (mc : MatrixClock) (nodeId : NodeId) (members : List NodeId)
    (finalDots : HashMap NodeId Nat) (selfClock vLive : CausalContext)
    (out : CausalContext × HashSet NodeId) : Prop where
  member : ∀ p ∈ members,
    ∃ ctx, (if p = nodeId then some selfClock else mc.lookup p) = some ctx ∧ Below vLive ctx
  alone : members = [] → vLive = ∅
  frontier : Below out.1 vLive
  obsolete : ∀ p, p ∈ out.2 ↔ Departed mc vLive members p ∧ finalDots.lookup p = vLive.lookup p
  pending : ∀ p, Departed mc vLive members p → finalDots.lookup p ≠ vLive.lookup p →
    ∀ ctx, mc.lookup p = some ctx → Below out.1 ctx

/-- **What `computeStableTimestamp` returns**: nothing, or a `Stable` result. -/
theorem computeStableTimestamp_cases (self : GcCoordinator) (nodeId : NodeId)
    (members : List NodeId) (finalDots : HashMap NodeId Nat) (selfClock : CausalContext) :
    self.computeStableTimestamp nodeId members finalDots selfClock = (∅, ∅) ∨
      ∃ mc vLive, self.matrixClock = some mc ∧
        Stable mc nodeId members finalDots selfClock vLive
          (self.computeStableTimestamp nodeId members finalDots selfClock) := by
  rw [computeStableTimestamp]
  cases hmc : self.matrixClock with
  | none => exact Or.inl rfl
  | some mc =>
    simp only
    cases hlive :
        meetMembers (fun p => if p = nodeId then some selfClock else mc.lookup p) members none with
    | none => exact Or.inl rfl
    | some vLive? =>
      right
      refine ⟨mc, vLive?.getD ∅, rfl, ?_⟩
      obtain ⟨hmem, -⟩ := meetMembers_below members none vLive? hlive
      refine ⟨hmem, fun halone => ?_, (pendingLoop_below _ _).1, fun p => ?_,
        fun p hdep hne ctx hctx => (pendingLoop_below _ _).2 p ?_ ctx hctx⟩
      · subst halone
        obtain rfl := Option.some.inj hlive
        rfl
      · rw [AList.mem_ofKeys, List.mem_filter, ← AList.mem_keys, mem_nonMembers, decide_eq_true_eq]
      · rw [List.mem_filter, ← AList.mem_keys, mem_nonMembers]
        exact ⟨hdep, by simpa using hne⟩

theorem computeStableTimestamp_of_none_departed {self : GcCoordinator}
    {vLive? : Option CausalContext} (hmc : self.matrixClock = some mc)
    (hlive : meetMembers (fun p => if p = nodeId then some selfClock else mc.lookup p)
      members none =
      some vLive?)
    (hnone : ∀ p, ¬ Departed mc (vLive?.getD ∅) members p) :
    self.computeStableTimestamp nodeId members finalDots selfClock = (vLive?.getD ∅, ∅) := by
  have hkeys : (nonMembers mc (vLive?.getD ∅) members).keys = [] :=
    List.eq_nil_iff_forall_not_mem.mpr fun p hp =>
      hnone p (mem_nonMembers.mp (AList.mem_keys.mpr hp))
  rw [computeStableTimestamp, hmc]
  simp only [hlive, hkeys]
  rfl

theorem stable_le_self (self : GcCoordinator) (hid : nodeId ∈ members) (k : NodeId) :
    counterAt (self.computeStableTimestamp nodeId members finalDots selfClock).1 k ≤
      counterAt selfClock k := by
  rcases self.computeStableTimestamp_cases nodeId members finalDots selfClock
    with h | ⟨mc, vLive, -, h⟩
  · rw [h]
    exact (Below.empty _).le k
  · obtain ⟨ctx, hctx, hle⟩ := h.member nodeId hid
    rw [if_pos rfl] at hctx
    obtain rfl := Option.some.inj hctx
    exact (h.frontier.trans hle).le k

theorem stable_of_no_members (self : GcCoordinator) (k : NodeId) :
    counterAt (self.computeStableTimestamp nodeId [] finalDots selfClock).1 k = 0 := by
  rcases self.computeStableTimestamp_cases nodeId [] finalDots selfClock with h | ⟨mc, vLive, -, h⟩
  · rw [h]
    exact counterAt_empty k
  · have hle := h.frontier.le k
    rw [h.alone rfl, counterAt_empty] at hle
    exact Nat.le_zero.mp hle

end GcCoordinator

end ExperimentalCrdt
