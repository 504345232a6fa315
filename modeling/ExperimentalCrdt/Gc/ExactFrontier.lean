import ExperimentalCrdt.Gc.Departed
import Mathlib.Order.Bounds.Basic

/-!
# The exact stable frontier

`computeStableTimestamp` folds rows through meets that drop zero entries, reads the intermediate
frontier to classify the departed nodes, and meets the rows of some of them on top. What comes out
is nevertheless a minimum in every component: of the members' rows and the rows of the departed
nodes that are not returned as obsolete.

The source keeps the departed nodes, and the keys inside every meet, in hash sets. `StableRun`
relates the inputs to what the function can return when each of these sets is visited in an
arbitrary order. All such runs agree, also over a reordered member list (`StableRun.unique`).
-/

namespace ExperimentalCrdt

/-! ## Minima -/

theorem isLeast_of_le_iff {S : Set Nat} {v : Nat} (hne : S.Nonempty)
    (h : ∀ c, c ≤ v ↔ ∀ x ∈ S, c ≤ x) :
    IsLeast S v := by
  have hlower : ∀ x ∈ S, v ≤ x := (h v).mp (Nat.le_refl v)
  refine ⟨?_, hlower⟩
  by_contra hv
  obtain ⟨x, hx⟩ := hne
  have habove : ∀ x ∈ S, v + 1 ≤ x := fun x hx =>
    Nat.lt_of_le_of_ne (hlower x hx) fun heq => hv (heq ▸ hx)
  exact absurd ((h (v + 1)).mpr habove) (Nat.not_succ_le_self v)

/-! ## Meets whose keys are visited in any order -/

/-- The loop of `vv_meet`, over the keys in some order. -/
def vvMeetOver (keys : List NodeId) (a b : CausalContext) : CausalContext :=
  keys.foldl
    (fun out k =>
      let m := min (counterAt a k) (counterAt b k)
      if 0 < m then out.insert k m else out) ∅

/-- What `vv_meet` can return. -/
def MeetRun (a b out : CausalContext) : Prop :=
  ∃ keys : List NodeId, keys.Nodup ∧ (∀ k, k ∈ keys ↔ k ∈ a ∨ k ∈ b) ∧ out = vvMeetOver keys a b

/-- What a loop that meets the given rows can end with. -/
inductive MeetsRun : List CausalContext → CausalContext → CausalContext → Prop where
  | nil (v : CausalContext) : MeetsRun [] v v
  | cons {row v v' out : CausalContext} {rows : List CausalContext} (meet : MeetRun v row v')
      (rest : MeetsRun rows v' out) : MeetsRun (row :: rows) v out

theorem meetRun_vvMeet (a b : CausalContext) : MeetRun a b (vvMeet a b) := by
  refine ⟨(a.keys ++ b.keys).dedup, List.nodup_dedup _, fun k => ?_, rfl⟩
  rw [List.mem_dedup, List.mem_append, ← AList.mem_keys, ← AList.mem_keys]

theorem meetsRun_meetAll (rows : List CausalContext) : ∀ v, MeetsRun rows v (meetAll v rows) := by
  induction rows with
  | nil => exact MeetsRun.nil
  | cons row rows ih => exact fun v => .cons (meetRun_vvMeet v row) (ih _)

theorem lookup_of_meetRun {a b out : CausalContext} (h : MeetRun a b out) (n : NodeId) :
    out.lookup n = (vvMeet a b).lookup n := by
  obtain ⟨keys, hnd, hmem, rfl⟩ := h
  have hloop := lookup_meetLoop (fun k => min (counterAt a k) (counterAt b k)) n keys ∅ hnd
  unfold vvMeetOver
  rw [hloop, lookup_vvMeet]
  by_cases hpos : 0 < min (counterAt a n) (counterAt b n)
  · have hn : n ∈ keys :=
      (hmem n).mpr (Or.inl (mem_of_counterAt_pos (lt_of_lt_of_le hpos (min_le_left _ _))))
    rw [if_pos ⟨hn, hpos⟩, if_pos hpos]
  · rw [if_neg (fun h => hpos h.2), if_neg hpos, AList.lookup_empty]

theorem counterAt_congr {v w : CausalContext} (h : ∀ n, v.lookup n = w.lookup n) (n : NodeId) :
    counterAt v n = counterAt w n := by
  unfold counterAt
  rw [h]

theorem lookup_vvMeet_congr {v w : CausalContext} (h : ∀ n, v.lookup n = w.lookup n)
    (row : CausalContext) (n : NodeId) : (vvMeet v row).lookup n = (vvMeet w row).lookup n := by
  rw [lookup_vvMeet, lookup_vvMeet, counterAt_congr h]

theorem lookup_of_meetsRun {rows : List CausalContext} {v out : CausalContext}
    (h : MeetsRun rows v out) :
    ∀ w : CausalContext, (∀ n, v.lookup n = w.lookup n) →
    ∀ n, out.lookup n = (meetAll w rows).lookup n := by
  induction h with
  | nil v => exact fun w hw => hw
  | cons meet rest ih =>
    intro w hw
    exact ih _ fun n => (lookup_of_meetRun meet n).trans (lookup_vvMeet_congr hw _ n)

theorem le_meetAll_cons (v : CausalContext) (rows : List CausalContext) (k : NodeId) (c : Nat) :
    c ≤ counterAt (meetAll v rows) k ↔ ∀ row ∈ v :: rows, c ≤ counterAt row k := by
  rw [le_meetAll, List.forall_mem_cons]

theorem lookup_meetAll_perm {v w : CausalContext} {rows rows' : List CausalContext}
    (h : (v :: rows).Perm (w :: rows')) (n : NodeId) :
    (meetAll v rows).lookup n = (meetAll w rows').lookup n := by
  by_cases hrows : rows = []
  · subst hrows
    obtain ⟨rfl, rfl⟩ := List.cons.inj (List.perm_singleton.mp h.symm)
    rfl
  · have hrows' : rows' ≠ [] := by
      rintro rfl
      exact hrows (List.cons.inj (List.perm_singleton.mp h)).2
    have hcounter : counterAt (meetAll v rows) n = counterAt (meetAll w rows') n := by
      apply eq_of_forall_le_iff
      intro c
      rw [le_meetAll_cons, le_meetAll_cons]
      exact ⟨fun hall row hrow => hall row (h.mem_iff.mpr hrow),
        fun hall row hrow => hall row (h.mem_iff.mp hrow)⟩
    rw [lookup_meetAll n rows v hrows, lookup_meetAll n rows' w hrows', hcounter]

/-! ## Runs of the frontier computation -/

/-- The vectors that the loop over the members meets; the frontier of no members is empty. -/
def liveRows (row : NodeId → CausalContext) : List NodeId → CausalContext × List CausalContext
  | [] => (∅, [])
  | m :: members => (row m, members.map row)

theorem liveRows_perm {row : NodeId → CausalContext} {members members' : List NodeId}
    (h : members.Perm members') :
    ((liveRows row members).1 :: (liveRows row members).2).Perm
      ((liveRows row members').1 :: (liveRows row members').2) := by
  rcases members with _ | ⟨m, rest⟩
  · rw [List.nil_perm.mp h]
  · rcases members' with _ | ⟨m', rest'⟩
    · exact absurd (List.perm_nil.mp h) (by simp)
    · exact h.map row

namespace GcCoordinator

/-- Two results are the same map and the same set. -/
def SameResult (out out' : CausalContext × HashSet NodeId) : Prop :=
  (∀ k, out.1.lookup k = out'.1.lookup k) ∧ ∀ p, p ∈ out.2 ↔ p ∈ out'.2

section runs

variable (mc : MatrixClock) (row : NodeId → CausalContext) (finalDots : HashMap NodeId Nat)

/-- What `compute_stable_timestamp` can return for members that have rows. The sets of departed,
obsolete and pending nodes are known by their elements only. -/
structure StableRun (members : List NodeId) (vLive : CausalContext) (pending : List NodeId)
    (out : CausalContext × HashSet NodeId) : Prop where
  live : MeetsRun (liveRows row members).2 (liveRows row members).1 vLive
  obsolete : ∀ p, p ∈ out.2 ↔ Departed mc vLive members p ∧ finalDots.lookup p = vLive.lookup p
  nodup : pending.Nodup
  rest : ∀ p, p ∈ pending ↔ Departed mc vLive members p ∧ finalDots.lookup p ≠ vLive.lookup p
  frontier : MeetsRun (pending.filterMap mc.lookup) vLive out.1

variable {mc row finalDots} {members members' pending pending' : List NodeId}
  {vLive vLive' : CausalContext} {out out' : CausalContext × HashSet NodeId}

theorem StableRun.unique (h : StableRun mc row finalDots members vLive pending out)
    (h' : StableRun mc row finalDots members' vLive' pending' out')
    (hperm : members.Perm members') :
    SameResult out out' := by
  have hrows := @liveRows_perm row _ _ hperm
  have hv := lookup_of_meetsRun h.live _ fun _ => rfl
  have hv' := lookup_of_meetsRun h'.live _ fun _ => rfl
  have hsame : ∀ k, vLive.lookup k = vLive'.lookup k := fun k =>
    (hv k).trans ((lookup_meetAll_perm hrows k).trans (hv' k).symm)
  have hdeparted : ∀ p, Departed mc vLive members p ↔ Departed mc vLive' members' p := fun p => by
    unfold Departed
    rw [← AList.lookup_isSome (s := vLive), ← AList.lookup_isSome (s := vLive'),
      hsame, hperm.mem_iff]
  have hpendings : pending.Perm pending' := by
    refine (List.perm_ext_iff_of_nodup h.nodup h'.nodup).mpr fun p => ?_
    rw [h.rest, h'.rest, hdeparted, hsame]
  refine ⟨fun k => ?_, fun p => by rw [h.obsolete, h'.obsolete, hdeparted, hsame]⟩
  rw [lookup_of_meetsRun h.frontier _ hv, lookup_of_meetsRun h'.frontier _ hv']
  -- the pending rows are met after the members' rows
  have happend : ∀ (v : CausalContext) (l l' : List CausalContext),
      meetAll (meetAll v l) l' = meetAll v (l ++ l') :=
    fun v l l' => (List.foldl_append).symm
  rw [happend, happend]
  exact lookup_meetAll_perm (hrows.append (hpendings.filterMap mc.lookup)) k

end runs

/-! ## The computation is exact -/

variable {mc : MatrixClock} (self : GcCoordinator) (nodeId : NodeId) (members : List NodeId)
  (finalDots : HashMap NodeId Nat) (selfClock : CausalContext)

section rows

variable (hmc : self.matrixClock = some mc) (hrows : HasRows mc nodeId members)
include hmc hrows

theorem stableRun_computeStableTimestamp :
    ∃ vLive pending, StableRun mc (self.rowOf nodeId selfClock) finalDots members vLive pending
      (self.computeStableTimestamp nodeId members finalDots selfClock) := by
  obtain ⟨vLive?, hlive, hv⟩ := self.meetMembers_liveFrontier nodeId members selfClock hmc hrows
  refine ⟨vLive?.getD ∅, (nonMembers mc (vLive?.getD ∅) members).keys.filter fun p =>
    !decide (finalDots.lookup p = (vLive?.getD ∅).lookup p), ?_, fun p => ?_, ?_, fun p => ?_, ?_⟩
  · rw [hv]
    cases members with
    | nil => exact MeetsRun.nil ∅
    | cons m rest => exact meetsRun_meetAll _ _
  · rw [hv]
    exact self.mem_obsolete nodeId members finalDots selfClock hmc hrows p
  · exact (nonMembers mc (vLive?.getD ∅) members).nodupKeys.filter _
  · rw [List.mem_filter, ← AList.mem_keys, mem_nonMembers]
    simp
  · unfold computeStableTimestamp
    rw [hmc]
    simp only [hlive]
    rw [foldl_pending fun v p => by cases mc.lookup p <;> rfl]
    exact meetsRun_meetAll _ _

/-- The vectors whose minimum the frontier is: those of the members, and the rows of the nodes that
are neither members nor obsolete. -/
def contributors (mc : MatrixClock) (obsolete : HashSet NodeId) : Set CausalContext :=
  { v | (∃ m ∈ members, v = self.rowOf nodeId selfClock m) ∨
    ∃ p, p ∉ members ∧ p ∉ obsolete ∧ mc.lookup p = some v }

theorem isLeast_frontier (hne : members ≠ []) (k : NodeId) :
    let out := self.computeStableTimestamp nodeId members finalDots selfClock
    IsLeast ((counterAt · k) '' self.contributors nodeId members selfClock mc out.2)
        (counterAt out.1 k) := by
  intro out
  have hle := self.le_stable nodeId members finalDots selfClock hmc hrows k
  have hobsolete := self.mem_obsolete nodeId members finalDots selfClock hmc hrows
  apply isLeast_of_le_iff
  · obtain ⟨m, hm⟩ := List.exists_mem_of_ne_nil members hne
    exact ⟨_, _, Or.inl ⟨m, hm, rfl⟩, rfl⟩
  · intro c
    rw [hle, le_liveFrontier _ _ _ _ hne, Set.forall_mem_image]
    constructor
    · rintro ⟨hmember, hpending⟩ v (⟨m, hm, rfl⟩ | ⟨p, hp, hnot, hrow⟩)
      · exact hmember m hm
      · have hdep : Departed mc (liveFrontier (self.rowOf nodeId selfClock) members) members p :=
          ⟨Or.inl (AList.mem_of_lookup hrow), hp⟩
        exact hpending p v hdep (fun heq => hnot ((hobsolete p).mpr ⟨hdep, heq⟩)) hrow
    · intro hall
      refine ⟨fun m hm => hall (Or.inl ⟨m, hm, rfl⟩), fun p v hdep hdiff hrow => ?_⟩
      exact hall (Or.inr ⟨p, hdep.2, fun hmem => hdiff ((hobsolete p).mp hmem).2, hrow⟩)

end rows

theorem computeStableTimestamp_perm (hmc : self.matrixClock = some mc)
    {members members' : List NodeId} (hperm : members.Perm members') :
    SameResult (self.computeStableTimestamp nodeId members finalDots selfClock)
      (self.computeStableTimestamp nodeId members' finalDots selfClock) := by
  have hiff : HasRows mc nodeId members ↔ HasRows mc nodeId members' :=
    ⟨fun h m hm => h m (hperm.mem_iff.mpr hm), fun h m hm => h m (hperm.mem_iff.mp hm)⟩
  by_cases hrows : HasRows mc nodeId members
  · obtain ⟨v, l, hrun⟩ :=
      self.stableRun_computeStableTimestamp nodeId members finalDots selfClock hmc hrows
    obtain ⟨v', l', hrun'⟩ :=
      self.stableRun_computeStableTimestamp nodeId members' finalDots selfClock hmc (hiff.mp hrows)
    exact hrun.unique hrun' hperm
  · rw [self.computeStableTimestamp_of_missing nodeId members finalDots selfClock hmc hrows,
      self.computeStableTimestamp_of_missing nodeId members' finalDots selfClock hmc fun h =>
        hrows (hiff.mpr h)]
    exact ⟨fun _ => rfl, fun _ => Iff.rfl⟩

/-- **The stable frontier is exact.** Without a row for some listed member other than the initiator
nothing is stable; otherwise the frontier is the minimum of the contributing rows in every
component, and `0` if nobody is listed. A reordered member list gives the same result, and so does
every run that visits its hash sets in another order. -/
theorem computeStableTimestamp_exact (self : GcCoordinator) (mc : MatrixClock) (nodeId : NodeId)
    (members : List NodeId) (finalDots : HashMap NodeId Nat) (selfClock : CausalContext)
    (hmc : self.matrixClock = some mc) :
    let out := self.computeStableTimestamp nodeId members finalDots selfClock
    ((∃ m ∈ members, m ≠ nodeId ∧ m ∉ mc) → out = (∅, ∅)) ∧
      ((∀ m ∈ members, m ≠ nodeId → m ∈ mc) →
        (∀ k, members ≠ [] →
          IsLeast ((counterAt · k) '' self.contributors nodeId members selfClock mc out.2)
            (counterAt out.1 k)) ∧
        (∀ k, members = [] → counterAt out.1 k = 0) ∧
        ∀ vLive pending out',
          StableRun mc (self.rowOf nodeId selfClock) finalDots members vLive pending out' →
          SameResult out' out) ∧
      ∀ members', members.Perm members' →
        SameResult out (self.computeStableTimestamp nodeId members' finalDots selfClock) := by
  intro out
  refine ⟨?_, fun hall => ?_, fun members' hperm =>
    self.computeStableTimestamp_perm nodeId finalDots selfClock hmc hperm⟩
  · rintro ⟨m, hm, hne, hnone⟩
    refine self.computeStableTimestamp_of_missing nodeId members finalDots
      selfClock hmc fun hrows => ?_
    exact (hrows m hm).elim hne hnone
  · have hrows : HasRows mc nodeId members := fun m hm => or_iff_not_imp_left.mpr (hall m hm)
    obtain ⟨v, l, hrun⟩ :=
      self.stableRun_computeStableTimestamp nodeId members finalDots selfClock hmc hrows
    refine ⟨fun k hne => self.isLeast_frontier nodeId members finalDots selfClock hmc hrows hne k,
      fun k hnone => ?_, fun vLive pending out' h => h.unique hrun (List.Perm.refl _)⟩
    subst hnone
    exact self.stable_of_no_members k

/-- `P` has left with a final dot that the members do not know yet. -/
def pendingP : GcCoordinator :=
  (GcCoordinator.new true).updateMatrixClock
    (AList.ofPairs [("R", AList.ofPairs [("G", 1), ("R", 2)]),
      ("P", AList.ofPairs [("G", 1), ("P", 3)])])

/-- The row of `P` keeps the frontier of `G` and `R` down. -/
theorem computeStableTimestamp_exact_pendingP :
    let out := pendingP.computeStableTimestamp "G" ["R", "G"] (AList.ofPairs [("P", 3)])
      (AList.ofPairs [("G", 4), ("R", 2)])
    counterAt out.1 "R" = 0 ∧
      IsLeast ((counterAt · "R") '' pendingP.contributors "G" ["R", "G"]
        (AList.ofPairs [("G", 4), ("R", 2)])
        (pendingP.matrixClock.getD ∅) out.2) (counterAt out.1 "R") :=
  ⟨by decide, ((computeStableTimestamp_exact pendingP _ "G" ["R", "G"] (AList.ofPairs [("P", 3)])
    (AList.ofPairs [("G", 4), ("R", 2)]) rfl).2.1 (by decide)).1 "R" (by decide)⟩

end GcCoordinator

end ExperimentalCrdt
