import ExperimentalCrdt.Gc.InitiateGc

/-!
# How departed nodes are classified

`computeStableTimestamp` compares two optional counters: the final dot of a departed node, and its
entry in the live frontier. The frontier of several members is a meet, which has no entry for `0`;
that of a single member is its own context (`mem_liveFrontier`). Both may therefore be absent, and a
node of which nothing is known then counts as obsolete (`obsolete_fully_known_iff`); or only one of
them is, and a node that never wrote stays pending and keeps its old row in the meet
(`departed_node_lets_go_iff`).
-/

namespace ExperimentalCrdt

/-! ## Meets of several rows -/

def meetAll (v : CausalContext) (rows : List CausalContext) : CausalContext := rows.foldl vvMeet v

theorem le_meetAll (rows : List CausalContext) (k : NodeId) (c : Nat) : ∀ v : CausalContext,
    c ≤ counterAt (meetAll v rows) k ↔ c ≤ counterAt v k ∧ ∀ row ∈ rows, c ≤ counterAt row k := by
  induction rows with
  | nil => intro v; simp [meetAll]
  | cons row rows ih =>
    intro v
    show c ≤ counterAt (meetAll (vvMeet v row) rows) k ↔ _
    rw [ih, counterAt_vvMeet, List.forall_mem_cons, Nat.le_min, and_assoc]

theorem lookup_meetAll (k : NodeId) : ∀ (rows : List CausalContext) (v : CausalContext), rows ≠ [] →
    (meetAll v rows).lookup k =
      if 0 < counterAt (meetAll v rows) k then some (counterAt (meetAll v rows) k) else none := by
  intro rows
  induction rows with
  | nil => intro v h; exact absurd rfl h
  | cons row rows ih =>
    intro v _
    by_cases hrows : rows = []
    · subst hrows
      show (vvMeet v row).lookup k =
        if 0 < counterAt (vvMeet v row) k then some (counterAt (vvMeet v row) k) else none
      rw [lookup_vvMeet, counterAt_vvMeet]
    · exact ih (vvMeet v row) hrows

/-- The meet of the rows of the members. -/
def liveFrontier (row : NodeId → CausalContext) : List NodeId → CausalContext
  | [] => ∅
  | m :: members => meetAll (row m) (members.map row)

/-- Every listed row counts events of `p`; a single row need only mention it. -/
def MentionedByAll (row : NodeId → CausalContext) (members : List NodeId) (p : NodeId) : Prop :=
  ∃ m ∈ members, p ∈ row m ∧ (members = [m] ∨ ∀ q ∈ members, 0 < counterAt (row q) p)

instance (row : NodeId → CausalContext) (members : List NodeId) (p : NodeId) :
    Decidable (MentionedByAll row members p) :=
  inferInstanceAs
    (Decidable (∃ m ∈ members, p ∈ row m ∧
    (members = [m] ∨ ∀ q ∈ members, 0 < counterAt (row q) p)))

section liveFrontier

variable (row : NodeId → CausalContext) (members : List NodeId) (p : NodeId)

theorem le_liveFrontier (c : Nat) (h : members ≠ []) :
    c ≤ counterAt (liveFrontier row members) p ↔ ∀ m ∈ members, c ≤ counterAt (row m) p := by
  obtain ⟨m, rest, rfl⟩ := List.exists_cons_of_ne_nil h
  unfold liveFrontier
  rw [le_meetAll, List.forall_mem_cons, List.forall_mem_map]

theorem mem_liveFrontier : p ∈ liveFrontier row members ↔ MentionedByAll row members p := by
  unfold MentionedByAll
  rcases members with _ | ⟨m, rest⟩
  · simp [liveFrontier]
  · by_cases hrest : rest = []
    · subst hrest
      simp [liveFrontier, meetAll]
    · have hlookup := lookup_meetAll p (rest.map row) (row m) (by simpa using hrest)
      have hpos := le_liveFrontier row (m :: rest) p 1 (by simp)
      have hmem : p ∈ liveFrontier row (m :: rest) ↔
          1 ≤ counterAt (liveFrontier row (m :: rest)) p := by
        unfold liveFrontier
        rw [← AList.lookup_isSome, hlookup]
        split
        · next h => exact iff_of_true rfl h
        · next h => exact iff_of_false Bool.false_ne_true h
      rw [hmem, hpos]
      constructor
      · intro h
        exact ⟨m, by simp, mem_of_counterAt_pos (h m (by simp)), Or.inr h⟩
      · rintro ⟨q, -, -, hsingle | h⟩
        · exact absurd (List.cons.inj hsingle).2 hrest
        · exact h

theorem lookup_liveFrontier {c : Nat} (hle : ∀ m ∈ members, c ≤ counterAt (row m) p) :
    (liveFrontier row members).lookup p = some c ↔
      MentionedByAll row members p ∧ ∃ m ∈ members, counterAt (row m) p = c := by
  have hsplit : (liveFrontier row members).lookup p = some c ↔
      p ∈ liveFrontier row members ∧ counterAt (liveFrontier row members) p = c := by
    constructor
    · intro h
      exact ⟨AList.mem_of_lookup h, counterAt_of_lookup h⟩
    · rintro ⟨hmem, rfl⟩
      obtain ⟨c, hc⟩ := AList.mem_iff_lookup.mp hmem
      rw [hc, counterAt_of_lookup hc]
  rw [hsplit, mem_liveFrontier]
  refine and_congr_right fun hmentioned => ?_
  obtain ⟨m, hm, -⟩ := hmentioned
  have hne : members ≠ [] := List.ne_nil_of_mem hm
  have hge := (le_liveFrontier row members p c hne).mpr hle
  have hgt := le_liveFrontier row members p (c + 1) hne
  constructor
  · intro heq
    by_contra hnone
    have hlt : ∀ m ∈ members, c + 1 ≤ counterAt (row m) p := by
      intro m hm
      have hne : counterAt (row m) p ≠ c := fun h => hnone ⟨m, hm, h⟩
      have hcm := hle m hm
      omega
    have := hgt.mpr hlt
    omega
  · rintro ⟨m, hm, heq⟩
    by_contra hne
    have := hgt.mp (by omega) m hm
    omega

end liveFrontier

namespace GcCoordinator

/-- What the frontier computation reads for a member. -/
def rowOf (self : GcCoordinator) (nodeId : NodeId) (selfClock : CausalContext) (m : NodeId) :
    CausalContext :=
  if m = nodeId then selfClock else ((self.matrixClock.getD ∅).lookup m).getD ∅

/-- Every listed member other than the caller has a row. -/
def HasRows (mc : MatrixClock) (nodeId : NodeId) (members : List NodeId) : Prop :=
  ∀ m ∈ members, m = nodeId ∨ m ∈ mc

instance (mc : MatrixClock) (nodeId : NodeId) (members : List NodeId) :
    Decidable (HasRows mc nodeId members) :=
  inferInstanceAs (Decidable (∀ m ∈ members, m = nodeId ∨ m ∈ mc))

theorem meetMembers_eq {contextOf : NodeId → Option CausalContext} {row : NodeId → CausalContext}
    (members : List NodeId) : (∀ m ∈ members, contextOf m = some (row m)) → ∀ acc : CausalContext,
      meetMembers contextOf members (some acc) = some (some (meetAll acc (members.map row))) := by
  induction members with
  | nil => intro _ acc; rfl
  | cons m members ih =>
    intro hrow acc
    unfold meetMembers
    rw [hrow m (by simp)]
    exact ih (fun q hq => hrow q (List.mem_cons_of_mem _ hq)) (vvMeet acc (row m))

theorem meetMembers_none {contextOf : NodeId → Option CausalContext} {p : NodeId}
    (hp : contextOf p = none) (members : List NodeId) :
    p ∈ members → ∀ acc, meetMembers contextOf members acc = none := by
  induction members with
  | nil => intro h; cases h
  | cons m members ih =>
    intro h acc
    unfold meetMembers
    rcases List.mem_cons.mp h with rfl | h
    · rw [hp]
    · cases contextOf m with
      | none => rfl
      | some ctx => exact ih h _

theorem foldl_pending {mc : MatrixClock} {f : CausalContext → NodeId → CausalContext}
    (hf : ∀ v p, f v p = (mc.lookup p).elim v (vvMeet v)) (l : List NodeId) :
    ∀ v : CausalContext, l.foldl f v = meetAll v (l.filterMap mc.lookup) := by
  induction l with
  | nil => intro v; rfl
  | cons p l ih =>
    intro v
    rw [List.foldl_cons, ih, List.filterMap_cons, hf]
    cases mc.lookup p <;> rfl

variable {mc : MatrixClock} (self : GcCoordinator) (nodeId : NodeId) (members : List NodeId)
  (finalDots : HashMap NodeId Nat) (selfClock : CausalContext)

theorem computeStableTimestamp_of_missing (hmc : self.matrixClock = some mc)
    (hrows : ¬ HasRows mc nodeId members) :
    self.computeStableTimestamp nodeId members finalDots selfClock = (∅, ∅) := by
  unfold HasRows at hrows
  push Not at hrows
  obtain ⟨m, hm, hne, hnone⟩ := hrows
  have hctx : (if m = nodeId then some selfClock else mc.lookup m) = none := by
    rw [if_neg hne]
    exact AList.lookup_eq_none.mpr hnone
  unfold computeStableTimestamp
  rw [hmc]
  have hnone : meetMembers (fun p => if p = nodeId then some selfClock else mc.lookup p)
      members none = none :=
    meetMembers_none hctx members hm none
  simp only [hnone]

section rows

variable (hmc : self.matrixClock = some mc) (hrows : HasRows mc nodeId members)
include hmc hrows

theorem meetMembers_liveFrontier :
    ∃ vLive?, meetMembers (fun p => if p = nodeId then some selfClock else mc.lookup p)
      members none =
        some vLive? ∧ vLive?.getD ∅ = liveFrontier (self.rowOf nodeId selfClock) members := by
  have hrow : ∀ m ∈ members, (if m = nodeId then some selfClock else mc.lookup m) =
      some (self.rowOf nodeId selfClock m) := by
    intro m hm
    unfold rowOf
    rw [hmc]
    split
    · rfl
    · next hne =>
      obtain ⟨ctx, hctx⟩ := AList.mem_iff_lookup.mp ((hrows m hm).resolve_left hne)
      rw [hctx, Option.getD_some, hctx]
      rfl
  rcases members with _ | ⟨m, rest⟩
  · exact ⟨none, rfl, rfl⟩
  · refine ⟨some (liveFrontier (self.rowOf nodeId selfClock) (m :: rest)), ?_, rfl⟩
    unfold meetMembers
    rw [hrow m (by simp)]
    exact meetMembers_eq rest (fun q hq => hrow q (List.mem_cons_of_mem _ hq)) _

/-- **The obsolete nodes** are the departed ones whose final dot is their entry in the live
frontier. -/
theorem mem_obsolete (p : NodeId) :
    p ∈ (self.computeStableTimestamp nodeId members finalDots selfClock).2 ↔
      Departed mc (liveFrontier (self.rowOf nodeId selfClock) members) members p ∧
        finalDots.lookup p = (liveFrontier (self.rowOf nodeId selfClock) members).lookup p := by
  obtain ⟨vLive?, hlive, hv⟩ := self.meetMembers_liveFrontier nodeId members selfClock hmc hrows
  unfold computeStableTimestamp
  rw [hmc]
  simp only [hlive, hv]
  rw [AList.mem_ofKeys, List.mem_filter, ← AList.mem_keys, mem_nonMembers, decide_eq_true_eq]

/-- **The frontier** is the meet of the live frontier and the rows of the pending nodes. -/
theorem le_stable (k : NodeId) (c : Nat) :
    c ≤ counterAt (self.computeStableTimestamp nodeId members finalDots selfClock).1 k ↔
      c ≤ counterAt (liveFrontier (self.rowOf nodeId selfClock) members) k ∧
        ∀ p ctx, Departed mc (liveFrontier (self.rowOf nodeId selfClock) members) members p →
          finalDots.lookup p ≠ (liveFrontier (self.rowOf nodeId selfClock) members).lookup p →
            mc.lookup p = some ctx → c ≤ counterAt ctx k := by
  obtain ⟨vLive?, hlive, hv⟩ := self.meetMembers_liveFrontier nodeId members selfClock hmc hrows
  unfold computeStableTimestamp
  rw [hmc]
  simp only [hlive, hv]
  rw [foldl_pending fun v p => by cases mc.lookup p <;> rfl, le_meetAll]
  refine and_congr_right fun _ => ?_
  simp only [List.mem_filterMap, List.mem_filter, ← AList.mem_keys, mem_nonMembers,
    Bool.not_eq_true',
    decide_eq_false_iff_not]
  constructor
  · intro h p ctx hdep hne hctx
    exact h ctx ⟨p, ⟨hdep, hne⟩, hctx⟩
  · rintro h ctx ⟨p, ⟨hdep, hne⟩, hctx⟩
    exact h p ctx hdep hne hctx

end rows

/-! ## Obsolete nodes are fully known -/

/-- `p` has left, and every listed member knows its events up to its final dot. -/
def FullyKnown (p : NodeId) : Prop :=
  p ∉ members ∧ ∃ c, finalDots.lookup p = some c ∧
    ∀ m ∈ members, c ≤ counterAt (self.rowOf nodeId selfClock m) p

/-- **Only fully known nodes are declared obsolete exactly when** every departed node that has a row
has a final dot too, or else is mentioned by all members. -/
theorem obsolete_fully_known_iff :
    (∀ p ∈ (self.computeStableTimestamp nodeId members finalDots selfClock).2,
        self.FullyKnown nodeId members finalDots selfClock p) ↔
      ∀ mc, self.matrixClock = some mc → HasRows mc nodeId members →
        ∀ p ∈ mc, p ∉ members → p ∉ finalDots →
          MentionedByAll (self.rowOf nodeId selfClock) members p := by
  constructor
  · intro h mc hmc hrows p hp hnot hfinal
    by_contra hunknown
    have hnone := AList.lookup_eq_none.mpr hfinal
    have hlive : p ∉ liveFrontier (self.rowOf nodeId selfClock) members := fun hmem =>
      hunknown ((mem_liveFrontier _ _ _).mp hmem)
    obtain ⟨-, c, hc, -⟩ :=
      h p ((self.mem_obsolete nodeId members finalDots selfClock hmc hrows p).mpr
      ⟨⟨Or.inl hp, hnot⟩, hnone.trans (AList.lookup_eq_none.mpr hlive).symm⟩)
    rw [hnone] at hc
    cases hc
  · intro h p hp
    cases hmc : self.matrixClock with
    | none =>
      unfold computeStableTimestamp at hp
      rw [hmc] at hp
      exact absurd hp (AList.notMem_empty p)
    | some mc =>
      by_cases hrows : HasRows mc nodeId members
      · obtain ⟨⟨hmentioned, hnot⟩, heq⟩ :=
          (self.mem_obsolete nodeId members finalDots selfClock hmc hrows p).mp hp
        cases hfinal : finalDots.lookup p with
        | none =>
          -- no final dot and no entry: it is the row that mentions `p`
          rw [hfinal] at heq
          have hlive := AList.lookup_eq_none.mp heq.symm
          have hall := h mc hmc hrows p (hmentioned.resolve_right hlive) hnot
            (AList.lookup_eq_none.mp hfinal)
          exact absurd ((mem_liveFrontier _ _ _).mpr hall) hlive
        | some c =>
          rw [hfinal] at heq
          have hne : members ≠ [] := by
            rintro rfl
            simp [liveFrontier] at heq
          refine ⟨hnot, c, hfinal, (le_liveFrontier _ _ p c hne).mp ?_⟩
          rw [counterAt_of_lookup heq.symm]
      · rw [self.computeStableTimestamp_of_missing nodeId members finalDots selfClock hmc hrows]
          at hp
        exact absurd hp (AList.notMem_empty p)

end GcCoordinator

/-- `P_1` has departed, and its final dot does not parse; `G` and `R` are registered. -/
def afterUnparsedDeparture : Storage String :=
  { Storage.fresh (AList.ofKeys ["G", "R"]) with finalDots := [("P_1", 1)] }

/-- GC replica `G` has seen an event of `P_1`, which once advertised to it, and one of its own; `R`
has told it that it knows the latter only. -/
def aheadOfR : Replica String "G" :=
  { gc := (GcCoordinator.new true).updateMatrixClock
      (AList.ofPairs [("R", AList.ofPairs [("G", 1)]), ("P_1", AList.ofPairs [("P_1", 1)])])
    crdt := .new
    dvv := { dot := ⟨"G", 1⟩, context := AList.ofPairs [("P_1", 1)] }
    dvv_owner := rfl }

namespace GcCoordinator

variable {mc : MatrixClock} (self : GcCoordinator) (nodeId : NodeId) (members : List NodeId)
  (finalDots : HashMap NodeId Nat) (selfClock : CausalContext)

/-! ## Departed nodes let go -/

theorem matrixClock_removeMatrixClockRow (p : NodeId) :
    (self.removeMatrixClockRow p).matrixClock = self.matrixClock.map fun mc => mc.erase p := rfl

theorem rowOf_removeMatrixClockRow {p m : NodeId} (hne : m ≠ p) :
    (self.removeMatrixClockRow p).rowOf nodeId selfClock m = self.rowOf nodeId selfClock m := by
  unfold rowOf
  rw [matrixClock_removeMatrixClockRow]
  cases self.matrixClock with
  | none => rfl
  | some mc => simp only [Option.map_some, Option.getD_some, AList.lookup_erase_ne hne]

theorem liveFrontier_removeMatrixClockRow {p : NodeId} (hp : p ∉ members) :
    liveFrontier ((self.removeMatrixClockRow p).rowOf nodeId selfClock) members =
      liveFrontier (self.rowOf nodeId selfClock) members := by
  have hrow : ∀ m ∈ members, (self.removeMatrixClockRow p).rowOf nodeId selfClock m =
      self.rowOf nodeId selfClock m := by
    intro m hm
    apply rowOf_removeMatrixClockRow
    rintro rfl
    exact hp hm
  rcases members with _ | ⟨m, rest⟩
  · rfl
  · have hrest := List.map_congr_left fun q hq => hrow q (List.mem_cons_of_mem _ hq)
    simp only [liveFrontier, hrow m (by simp), hrest]

section

variable {nodeId : NodeId} {members : List NodeId} {p : NodeId}

theorem HasRows.of_erase (h : HasRows (mc.erase p) nodeId members) : HasRows mc nodeId members :=
  fun m hm => (h m hm).imp_right fun hmem => (AList.mem_erase.mp hmem).2

theorem HasRows.erase (h : HasRows mc nodeId members) (hp : p ∉ members) :
    HasRows (mc.erase p) nodeId members := by
  intro m hm
  refine (h m hm).imp_right fun hmem => AList.mem_erase.mpr ⟨?_, hmem⟩
  rintro rfl
  exact hp hm

end

/-- **What the row of a departed node does to the frontier**: when the node counts as pending, the
row is met into the frontier of the others. -/
theorem le_stable_removeMatrixClockRow (hmc : self.matrixClock = some mc)
    (hrows : HasRows mc nodeId members) {p : NodeId} (hp : p ∉ members) (k : NodeId) (c : Nat) :
    c ≤ counterAt (self.computeStableTimestamp nodeId members finalDots selfClock).1 k ↔
      c ≤ counterAt
        ((self.removeMatrixClockRow p).computeStableTimestamp nodeId members finalDots selfClock).1
          k ∧
        (finalDots.lookup p ≠ (liveFrontier (self.rowOf nodeId selfClock) members).lookup p →
          ∀ ctx, mc.lookup p = some ctx → c ≤ counterAt ctx k) := by
  have hmc' : (self.removeMatrixClockRow p).matrixClock = some (mc.erase p) := by
    rw [matrixClock_removeMatrixClockRow, hmc, Option.map_some]
  rw [self.le_stable nodeId members finalDots selfClock hmc hrows,
    le_stable _ nodeId members finalDots selfClock hmc' (hrows.erase hp),
    self.liveFrontier_removeMatrixClockRow nodeId members selfClock hp]
  constructor
  · rintro ⟨hlive, hpending⟩
    refine ⟨⟨hlive, fun q ctx hdep hne hctx => ?_⟩, fun hne ctx hctx => ?_⟩
    · rw [AList.lookup_erase_eq] at hctx
      split at hctx
      · cases hctx
      · exact hpending q ctx ⟨hdep.1.imp_left fun hmem => (AList.mem_erase.mp hmem).2,
          hdep.2⟩ hne hctx
    · exact hpending p ctx ⟨Or.inl (AList.mem_of_lookup hctx), hp⟩ hne hctx
  · rintro ⟨⟨hlive, hpending⟩, hrow⟩
    refine ⟨hlive, fun q ctx hdep hne hctx => ?_⟩
    by_cases hq : q = p
    · subst hq
      exact hrow hne ctx hctx
    · refine hpending q ctx
        ⟨hdep.1.imp_left fun hmem => AList.mem_erase.mpr ⟨hq, hmem⟩, hdep.2⟩ hne ?_
      rw [AList.lookup_erase_ne hq]
      exact hctx

theorem stable_removeMatrixClockRow (hmc : self.matrixClock = some mc)
    (hrows : HasRows mc nodeId members) {p : NodeId}
    (hp : p ∈ (self.computeStableTimestamp nodeId members finalDots selfClock).2) (k : NodeId) :
    counterAt ((self.removeMatrixClockRow p).computeStableTimestamp nodeId
      members finalDots selfClock).1 k =
      counterAt (self.computeStableTimestamp nodeId members finalDots selfClock).1 k := by
  obtain ⟨⟨-, hnot⟩, heq⟩ :=
    (self.mem_obsolete nodeId members finalDots selfClock hmc hrows p).mp hp
  have hle :=
    self.le_stable_removeMatrixClockRow nodeId members finalDots selfClock hmc hrows hnot k
  apply Nat.le_antisymm
  · exact (hle _).mpr ⟨Nat.le_refl _, fun hne => absurd heq hne⟩
  · exact ((hle _).mp (Nat.le_refl _)).1

/-- The final dot of `p` is what the listed rows have of it, or neither is there. -/
def Settled (p : NodeId) : Prop :=
  match finalDots.lookup p with
  | some c => MentionedByAll (self.rowOf nodeId selfClock) members p ∧
      (∀ m ∈ members, c ≤ counterAt (self.rowOf nodeId selfClock m) p) ∧
        ∃ m ∈ members, counterAt (self.rowOf nodeId selfClock m) p = c
  | none => ¬ MentionedByAll (self.rowOf nodeId selfClock) members p

theorem settled_iff (p : NodeId) : self.Settled nodeId members finalDots selfClock p ↔
    finalDots.lookup p = (liveFrontier (self.rowOf nodeId selfClock) members).lookup p := by
  unfold Settled
  cases finalDots.lookup p with
  | none =>
    rw [← mem_liveFrontier, eq_comm]
    exact AList.lookup_eq_none.symm
  | some c =>
    rw [eq_comm]
    constructor
    · rintro ⟨hmentioned, hle, hone⟩
      exact (lookup_liveFrontier _ _ p hle).mpr ⟨hmentioned, hone⟩
    · intro hlive
      have hmentioned := (mem_liveFrontier _ _ _).mp (AList.mem_of_lookup hlive)
      obtain ⟨m, hm, -⟩ := hmentioned
      have hle := (le_liveFrontier _ members p c (List.ne_nil_of_mem hm)).mp
        (counterAt_of_lookup hlive).ge
      obtain ⟨hmentioned, hone⟩ := (lookup_liveFrontier _ _ p hle).mp hlive
      exact ⟨hmentioned, hle, hone⟩

/-- All listed rows, and those of the pending nodes other than `p`, count `x` events of `n`. -/
def ReachedByOthers (p n : NodeId) (x : Nat) : Prop :=
  members ≠ [] ∧ (∀ m ∈ members, x ≤ counterAt (self.rowOf nodeId selfClock m) n) ∧
    ∀ mc, self.matrixClock = some mc → ∀ q ctx, q ≠ p → q ∉ members → mc.lookup q = some ctx →
      ¬ self.Settled nodeId members finalDots selfClock q → x ≤ counterAt ctx n

theorem reachedByOthers_iff (hmc : self.matrixClock = some mc) (hrows : HasRows mc nodeId members)
    {p : NodeId} (hp : p ∉ members) (n : NodeId) {x : Nat} (hx : x ≠ 0) :
    self.ReachedByOthers nodeId members finalDots selfClock p n x ↔
      x ≤ counterAt ((self.removeMatrixClockRow p).computeStableTimestamp nodeId
        members finalDots selfClock).1 n := by
  have hmc' : (self.removeMatrixClockRow p).matrixClock = some (mc.erase p) := by
    rw [matrixClock_removeMatrixClockRow, hmc, Option.map_some]
  rw [le_stable _ nodeId members finalDots selfClock hmc' (hrows.erase hp),
    self.liveFrontier_removeMatrixClockRow nodeId members selfClock hp]
  unfold ReachedByOthers
  constructor
  · rintro ⟨hne, hlive, hpending⟩
    refine ⟨(le_liveFrontier _ members n x hne).mpr hlive, fun q ctx hdep hunsettled hctx => ?_⟩
    rw [AList.lookup_erase_eq] at hctx
    split at hctx
    · cases hctx
    · next hq =>
      exact hpending mc hmc q ctx hq hdep.2 hctx fun h =>
        hunsettled ((self.settled_iff _ _ _ _ q).mp h)
  · rintro ⟨hlive, hpending⟩
    have hne : members ≠ [] := by
      rintro rfl
      exact hx (Nat.le_zero.mp hlive)
    refine ⟨hne, (le_liveFrontier _ members n x hne).mp hlive,
      fun mc' hmc'' q ctx hq hnot hctx hunsettled => ?_⟩
    obtain rfl := Option.some.inj (hmc.symm.trans hmc'')
    refine hpending q ctx ⟨Or.inl (AList.mem_erase.mpr ⟨hq, AList.mem_of_lookup hctx⟩), hnot⟩
      (fun h => hunsettled ((self.settled_iff _ _ _ _ q).mpr h)) ?_
    rw [AList.lookup_erase_ne hq]
    exact hctx

/-- **The row of a departed node has no say in the frontier exactly when** the node is settled, or
the row reaches all that the others reach. -/
theorem row_has_no_say_iff {p : NodeId} (hp : p ∉ members) :
    (∀ n, counterAt ((self.removeMatrixClockRow p).computeStableTimestamp nodeId members finalDots
          selfClock).1 n =
        counterAt (self.computeStableTimestamp nodeId members finalDots selfClock).1 n) ↔
      ∀ mc, self.matrixClock = some mc → HasRows mc nodeId members → ∀ ctx, mc.lookup p = some ctx →
        self.Settled nodeId members finalDots selfClock p ∨
          ∀ n x, self.ReachedByOthers nodeId members finalDots selfClock p n x →
          x ≤ counterAt ctx n := by
  cases hmc : self.matrixClock with
  | none =>
    refine iff_of_true (fun n => ?_) fun mc h => by cases h
    unfold computeStableTimestamp
    rw [matrixClock_removeMatrixClockRow, hmc]
    rfl
  | some mc =>
    by_cases hrows : HasRows mc nodeId members
    swap
    · refine iff_of_true (fun n => ?_) fun mc' h hrows' => ?_
      · have hmc' : (self.removeMatrixClockRow p).matrixClock = some (mc.erase p) := by
          rw [matrixClock_removeMatrixClockRow, hmc, Option.map_some]
        rw [self.computeStableTimestamp_of_missing nodeId members finalDots selfClock hmc hrows,
          computeStableTimestamp_of_missing _ nodeId members finalDots selfClock hmc' fun h =>
            hrows h.of_erase]
      · obtain rfl := Option.some.inj h
        exact absurd hrows' hrows
    have hle := self.le_stable_removeMatrixClockRow nodeId members finalDots selfClock hmc hrows hp
    have hothers := fun {n x} hx =>
      self.reachedByOthers_iff nodeId members finalDots selfClock hmc hrows hp n (x := x) hx
    constructor
    · intro heq mc' h _ ctx hctx
      obtain rfl := Option.some.inj h
      rw [settled_iff, or_iff_not_imp_left]
      intro hunsettled n x hreached
      rcases Nat.eq_zero_or_pos x with rfl | hpos
      · exact Nat.zero_le _
      · have hx := (hothers hpos.ne').mp hreached
        rw [heq n] at hx
        exact ((hle n x).mp hx).2 hunsettled ctx hctx
    · intro h n
      apply Nat.le_antisymm
      · refine (hle n _).mpr ⟨Nat.le_refl _, fun hunsettled ctx hctx => ?_⟩
        rcases Nat.eq_zero_or_pos
          (counterAt ((self.removeMatrixClockRow p).computeStableTimestamp nodeId members
          finalDots selfClock).1 n) with hzero | hpos
        · rw [hzero]
          exact Nat.zero_le _
        · have hreaches := (h mc rfl hrows ctx hctx).resolve_left fun hsettled =>
            hunsettled ((self.settled_iff _ _ _ _ p).mp hsettled)
          exact hreaches n _ ((hothers hpos.ne').mpr (Nat.le_refl _))
      · exact ((hle n _).mp (Nat.le_refl _)).1

/-- **A departed node that every member knows up to its final dot lets go of the frontier exactly
when** it is mentioned by all of them and one of them stands at the final dot. -/
theorem departed_node_lets_go_iff (hmc : self.matrixClock = some mc)
    (hrows : HasRows mc nodeId members) (p : NodeId) (c : Nat) (hp : p ∉ members)
    (hc : finalDots.lookup p = some c)
    (hle : ∀ m ∈ members, c ≤ counterAt (self.rowOf nodeId selfClock m) p) :
    (p ∈ (self.computeStableTimestamp nodeId members finalDots selfClock).2 ∧
        ∀ k, counterAt
          ((self.removeMatrixClockRow p).computeStableTimestamp nodeId members finalDots
            selfClock).1 k =
          counterAt (self.computeStableTimestamp nodeId members finalDots selfClock).1 k) ↔
      MentionedByAll (self.rowOf nodeId selfClock) members p ∧
        ∃ m ∈ members, counterAt (self.rowOf nodeId selfClock m) p = c := by
  rw [← lookup_liveFrontier _ _ _ hle]
  constructor
  · rintro ⟨hmem, -⟩
    have heq := ((self.mem_obsolete nodeId members finalDots selfClock hmc hrows p).mp hmem).2
    rw [← heq, hc]
  · intro hlive
    have hmem : p ∈ (self.computeStableTimestamp nodeId members finalDots selfClock).2 :=
      (self.mem_obsolete nodeId members finalDots selfClock hmc hrows p).mpr
        ⟨⟨Or.inr (AList.mem_of_lookup hlive), hp⟩, hc.trans hlive.symm⟩
    exact ⟨hmem, self.stable_removeMatrixClockRow nodeId members finalDots selfClock hmc hrows hmem⟩

/-- The coordinator of `G` with the rows of `R` and of the departed `P`, which has not learned of
the event of `G`. -/
def oldRowOfP : GcCoordinator :=
  (GcCoordinator.new true).updateMatrixClock
    (AList.ofPairs [("R", AList.ofPairs [("G", 1), ("P", 2)]), ("P", AList.ofPairs [("P", 2)])])

theorem departed_node_lets_go_oldRow :
    ("P" ∈ (oldRowOfP.computeStableTimestamp "G" ["G", "R"] (AList.ofPairs [("P", 2)])
          (AList.ofPairs [("G", 1), ("P", 2)])).2 ∧
        ∀ k, counterAt ((oldRowOfP.removeMatrixClockRow "P").computeStableTimestamp "G" ["G", "R"]
            (AList.ofPairs [("P", 2)]) (AList.ofPairs [("G", 1), ("P", 2)])).1 k =
          counterAt (oldRowOfP.computeStableTimestamp "G" ["G", "R"] (AList.ofPairs [("P", 2)])
            (AList.ofPairs [("G", 1), ("P", 2)])).1 k) ↔
      MentionedByAll (oldRowOfP.rowOf "G" (AList.ofPairs [("G", 1), ("P", 2)])) ["G", "R"] "P" ∧
        ∃ m ∈ ["G", "R"],
          counterAt (oldRowOfP.rowOf "G" (AList.ofPairs [("G", 1), ("P", 2)]) m) "P" = 2 :=
  oldRowOfP.departed_node_lets_go_iff "G" ["G", "R"] (AList.ofPairs [("P", 2)])
    (AList.ofPairs [("G", 1), ("P", 2)]) rfl (by decide) "P" 2 (by decide) (by decide) (by decide)

/-- The coordinator of `G` with the rows of `R` and of a departed `P` that never wrote and has
learned of nothing. -/
def silentP : GcCoordinator :=
  (GcCoordinator.new true).updateMatrixClock
    (AList.ofPairs [("R", AList.ofPairs [("G", 1)]), ("P", ∅)])

/-- A node that never wrote leaves with final dot `0`, which every row reaches; it stays pending,
and its empty row takes the frontier down to nothing. -/
theorem silent_node_holds_back :
    (∃ mc, silentP.matrixClock = some mc ∧ HasRows mc "G" ["G", "R"]) ∧
      (∀ m ∈ ["G", "R"], 0 ≤ counterAt (silentP.rowOf "G" (AList.ofPairs [("G", 1)]) m) "P") ∧
      "P" ∉ (silentP.computeStableTimestamp "G" ["G", "R"] (AList.ofPairs [("P", 0)])
          (AList.ofPairs [("G", 1)])).2 ∧
        counterAt (silentP.computeStableTimestamp "G" ["G", "R"] (AList.ofPairs [("P", 0)])
          (AList.ofPairs [("G", 1)])).1 "G" = 0 ∧
        counterAt ((silentP.removeMatrixClockRow "P").computeStableTimestamp "G" ["G", "R"]
          (AList.ofPairs [("P", 0)]) (AList.ofPairs [("G", 1)])).1 "G" = 1 := by
  refine ⟨⟨_, rfl, by decide⟩, fun _ _ => Nat.zero_le _, ?_, ?_, ?_⟩
  · decide
  · decide
  · decide

end GcCoordinator

end ExperimentalCrdt
