import Mathlib.Data.List.Chain
import ExperimentalCrdt.Cluster.Reclamation
import ExperimentalCrdt.Cluster.Dots
import ExperimentalCrdt.Gc.Departed

/-!
# Whether the published frontier progresses

`initiate_gc` stops when the frontier it has computed is not beyond the previous one in some
component. It does not look at the components that are behind. An initiator whose matrix clock lags
sees a frontier that is incomparable to the published one, and commits it (`frontier_goes_back`).

The frontier progresses exactly if the rows it is computed from, when all of them are ahead of the
previous frontier somewhere, are behind it nowhere (`stable_progresses_iff`). In the runs in which
every call finds that, and no two calls overlap, every commit strictly dominates the one before
(`frontiers_progress`).
-/

namespace ExperimentalCrdt

open Transition (Reachable replay reachable_of_replay)

variable {E : Type} {id : NodeId}

/-- No component goes down, and some component goes up. -/
structure Progresses (v v' : CausalContext) : Prop where
  lt : vvLt v v' = true
  up : ∃ n, counterAt v n < counterAt v' n

theorem progresses_iff {v v' : CausalContext} :
    Progresses v v' ↔ vvLeq v' v = false ∧ ∀ n, counterAt v n ≤ counterAt v' n := by
  have hup : vvLeq v' v = false ↔ ∃ n, counterAt v n < counterAt v' n := by
    rw [← Bool.not_eq_true, vvLeq_iff]
    push Not
    rfl
  rw [hup]
  constructor
  · intro h
    exact ⟨h.up, (vvLt_iff.mp h.lt).1⟩
  · rintro ⟨⟨n, hn⟩, hle⟩
    refine ⟨vvLt_iff.mpr ⟨hle, n, fun heq => ?_⟩, n, hn⟩
    simp only [counterAt, heq] at hn
    omega

/-! ## One call -/

namespace Replica

variable (r : Replica E id) (previousVStable : CausalContext) (m1 : List NodeId)

/-- What the frontier computation reads for a member. -/
def frontierRow (m : NodeId) : CausalContext := r.gc.rowOf id r.dvv.effectiveMap m

/-- Some component of the previous frontier is behind the rows of all members. -/
def AheadSomewhere : Prop :=
  ∃ n, ∀ m ∈ m1, counterAt previousVStable n < counterAt (r.frontierRow m) n

/-- No component of the previous frontier is ahead of the row of a member. -/
def BehindNowhere : Prop := ∀ m ∈ m1, vvLeq previousVStable (r.frontierRow m) = true

section frontier

variable {r m1} {mc : MatrixClock} (finalDots : HashMap NodeId Nat)
  (hmc : r.gc.matrixClock = some mc) (hlisted : ∀ p ∈ mc, p ∈ m1) (hid : id ∈ m1)
include hmc hlisted hid

theorem le_stable_of_listed (hrows : GcCoordinator.HasRows mc id m1) (n : NodeId) (c : Nat) :
    c ≤ counterAt (r.gc.computeStableTimestamp id m1 finalDots r.dvv.effectiveMap).1 n ↔
      ∀ m ∈ m1, c ≤ counterAt (r.frontierRow m) n := by
  rw [r.gc.le_stable id m1 finalDots r.dvv.effectiveMap hmc hrows,
    le_liveFrontier _ _ _ _ (List.ne_nil_of_mem hid)]
  refine and_iff_left fun p ctx hdep _ hctx => ?_
  exact absurd (hlisted p (AList.mem_of_lookup hctx)) hdep.2

/-- **The frontier a call computes progresses, if it is committed, exactly if** the rows of the
members are behind the previous frontier nowhere when all of them are ahead of it somewhere. -/
theorem stable_progresses_iff :
    (vvLeq (r.gc.computeStableTimestamp id m1 finalDots r.dvv.effectiveMap).1 previousVStable =
      false →
        Progresses previousVStable
          (r.gc.computeStableTimestamp id m1 finalDots r.dvv.effectiveMap).1) ↔
      (r.AheadSomewhere previousVStable m1 → r.BehindNowhere previousVStable m1) := by
  by_cases hrows : GcCoordinator.HasRows mc id m1
  · have hle := r.le_stable_of_listed finalDots hmc hlisted hid hrows
    have hup : vvLeq (r.gc.computeStableTimestamp id m1 finalDots r.dvv.effectiveMap).1
        previousVStable =
        false ↔ r.AheadSomewhere previousVStable m1 := by
      rw [← Bool.not_eq_true, vvLeq_iff]
      push Not
      exact exists_congr fun n => hle n (counterAt previousVStable n + 1)
    have hdown : (∀ n, counterAt previousVStable n ≤
          counterAt (r.gc.computeStableTimestamp id m1 finalDots r.dvv.effectiveMap).1 n) ↔
        r.BehindNowhere previousVStable m1 := by
      simp only [hle, BehindNowhere, vvLeq_iff]
      exact ⟨fun h m hm n => h n m hm, fun h n m hm => h m hm n⟩
    rw [progresses_iff, hdown, hup]
    exact imp_congr_right fun hahead => and_iff_right hahead
  · -- a member without a row: the frontier is empty, and that row is ahead of nothing
    rw [r.gc.computeStableTimestamp_of_missing id m1 finalDots r.dvv.effectiveMap hmc hrows]
    refine iff_of_true (fun hlt => ?_) fun hahead => ?_
    · have hle : vvLeq ∅ previousVStable = true := vvLeq_iff.mpr fun n => by simp
      rw [hle] at hlt
      cases hlt
    · obtain ⟨n, hn⟩ := hahead
      unfold GcCoordinator.HasRows at hrows
      push Not at hrows
      obtain ⟨m, hm, hne, hnone⟩ := hrows
      have hrow : r.frontierRow m = ∅ := by
        unfold frontierRow GcCoordinator.rowOf
        rw [if_neg hne, hmc, Option.getD_some, AList.lookup_eq_none.mpr hnone, Option.getD_none]
      have hlt := hn m hm
      rw [hrow, counterAt_empty] at hlt
      omega

end frontier

/-- Only the nodes of the first row can be ahead. -/
instance : Decidable (r.AheadSomewhere previousVStable m1) :=
  match m1 with
  | [] => isTrue ⟨"", fun _ hm => absurd hm (List.not_mem_nil)⟩
  | m :: rest =>
    decidable_of_iff (∃ n ∈ (r.frontierRow m).keys,
        ∀ q ∈ m :: rest, counterAt previousVStable n < counterAt (r.frontierRow q) n)
      ⟨fun ⟨n, _, h⟩ => ⟨n, h⟩, fun ⟨n, h⟩ => ⟨n, AList.mem_keys.mp (mem_of_counterAt_pos
        (Nat.lt_of_le_of_lt (Nat.zero_le _) (h m (by simp)))), h⟩⟩

instance : Decidable (r.BehindNowhere previousVStable m1) :=
  inferInstanceAs (Decidable (∀ m ∈ m1, _))

end Replica

/-! ## Runs -/

/-- What a call of `id` that runs alone knows of the published frontier `v`. -/
def InitiateGc.Follows (id : NodeId) (v : CausalContext) : InitiateGc E → Prop
  | .liveMembers _ previousVStable => previousVStable = v
  | .claimGcIntent _ previousVStable _ => previousVStable = v
  | .liveMembersAgain _ previousVStable _ => previousVStable = v
  | .readFinalDots _ previousVStable m1 => previousVStable = v ∧ id ∈ m1
  | .writeEpochState _ epochMetadata => Progresses v epochMetadata.vStable
  | .writeEpochMetadata epochMetadata => Progresses v epochMetadata.vStable
  | _ => True

theorem InitiateGc.Follows.resume [DecidableEq E] {pc pc' : InitiateGc E} {ok : Bool}
    {r : Replica E id} {st : Storage E} (h : pc.Follows id st.readEpochMetadata.vStable)
    (hid : id ∈ st.registrations)
    (hfinds : ∀ n previousVStable m1 s m, pc = .readFinalDots n previousVStable m1 →
      (InitiateGc.afterFinalDots r n previousVStable m1 st.readFinalDots).1 = .writeEpochState s m →
        Progresses previousVStable m.vStable)
    (hout : (pc.resume ok r st).1 = .await pc') :
    pc'.Follows id (pc.resume ok r st).2.2.readEpochMetadata.vStable := by
  cases ok with
  | false =>
    obtain ⟨result, hfailed⟩ := pc.resume_failed r st
    rw [hfailed] at hout
    cases hout
  | true =>
    cases pc with
    | readEpochMetadata =>
      cases hout
      rfl
    | liveMembers n previousVStable =>
      cases hout
      exact h
    | claimGcIntent n previousVStable m0 =>
      rcases InitiateGc.resume_claim r st n previousVStable m0 with ⟨-, result, heq⟩ | ⟨-, heq⟩
      · rw [heq] at hout
        cases hout
      · rw [heq] at hout ⊢
        cases hout
        exact h
    | liveMembersAgain n previousVStable m0 =>
      rcases InitiateGc.resume_again r st n previousVStable m0 with heq | heq
      · rw [heq] at hout
        cases hout
        trivial
      · rw [heq] at hout ⊢
        cases hout
        exact ⟨h, (st.mem_liveMembers id).mpr hid⟩
    | readFinalDots n previousVStable m1 =>
      have hpc : (InitiateGc.afterFinalDots r n previousVStable m1 st.readFinalDots).1 = pc' :=
        Progress.await.inj hout
      obtain ⟨rfl, -⟩ := h
      show pc'.Follows id st.readEpochMetadata.vStable
      by_cases hprogress :
          vvLeq (r.gc.computeStableTimestamp id m1 st.readFinalDots r.dvv.effectiveMap).1
          st.readEpochMetadata.vStable = true
      · rw [InitiateGc.afterFinalDots_noProgress r n _ m1 rfl hprogress] at hpc
        subst hpc
        trivial
      · have hcommit := InitiateGc.afterFinalDots_progress r n _ m1 rfl hprogress
        rw [hcommit] at hpc
        subst hpc
        exact hfinds n _ m1 _ _ rfl (by rw [hcommit])
    | writeEpochState s m =>
      cases hout
      exact h
    | writeEpochMetadata m =>
      cases hout
      trivial
    | releaseMembershipChange n | releaseNoProgress n | releaseCommit n => cases hout

namespace Cluster

/-- A call of `initiate_gc` runs at `id`. -/
def Calls (c : Cluster E) (id : NodeId) : Prop :=
  ∃ k pc, c.core id = some k ∧ k.task = .initiateGc pc

/-- Some call of `initiate_gc` runs. -/
def someCalls (c : Cluster E) : Bool :=
  c.nodes.entries.any fun e =>
    match e.2.engine.task with
    | .initiateGc _ => true
    | _ => false

/-- A call begins while no other runs. -/
def beginsAlone (c : Cluster E) : Label E → Bool
  | .handle id _ =>
    match c.nextRequest id with
    | some .initiateGc => !c.someCalls
    | _ => true
  | _ => true

/-- A call that gets to compute its frontier now has no row behind the previous one, if all of them
are ahead of it somewhere. -/
def findsProgress (c : Cluster E) : Label E → Bool
  | .resume id _ =>
    match c.core id with
    | some k =>
      match k.task with
      | .initiateGc (.readFinalDots _ previousVStable m1) =>
        decide (k.replica.AheadSomewhere previousVStable m1 →
          k.replica.BehindNowhere previousVStable m1)
      | _ => true
    | none => true
  | _ => true

/-- The guard of the runs in which the frontier progresses. -/
def ProgressGuard (c : Cluster E) (l : Label E) : Prop :=
  l.fixes = true ∧ beginsAlone c l = true ∧ findsProgress c l = true

instance (c : Cluster E) (l : Label E) : Decidable (ProgressGuard c l) :=
  inferInstanceAs (Decidable (_ ∧ _ ∧ _))

/-- The frontiers in the order of their publication, after that of a bucket without epochs. -/
def published (c : Cluster E) : List CausalContext := ∅ :: c.commits.map (·.vStable)

structure Progressing (c : Cluster E) : Prop where
  rows : Rows c
  chain : c.published.IsChain Progresses
  last : c.published.getLast? = some c.storage.readEpochMetadata.vStable
  follows : ∀ id k pc, c.core id = some k → k.task = .initiateGc pc →
    pc.Follows id c.storage.readEpochMetadata.vStable
  alone : ∀ x y, c.Calls x → c.Calls y → x = y

variable {c c' : Cluster E}

theorem not_calls_of_someCalls (h : c.someCalls = false) (id : NodeId) : ¬ c.Calls id := by
  rintro ⟨k, pc, hk, htask⟩
  obtain ⟨s, hs, rfl⟩ := Option.map_eq_some_iff.mp hk
  have hnone := List.any_eq_false.mp h ⟨id, s⟩ (AList.mem_lookup_iff.mp hs)
  have htask : s.engine.task = .initiateGc pc := htask
  simp [htask] at hnone

variable [DecidableEq E]

theorem calls_step {l : Label E} (hl : l.fixes = true) (hstep : c.step l = some c')
    (hcalls : c'.Calls id) :
    c.Calls id ∨ ∃ choice, l = .handle id choice ∧ c.nextRequest id = some .initiateGc := by
  obtain ⟨k', pc, hk', htask⟩ := hcalls
  cases l with
  | request | receive | duplicate | drop | connect | disconnect =>
    have hq : Quiet _ c c' := step_quiet (by exact trivial) hstep
    rw [hq.core] at hk'
    exact Or.inl ⟨k', pc, hk', htask⟩
  | handle x choice =>
    obtain ⟨s, req, hh⟩ := step_handle hstep
    by_cases hx : id = x
    · subst hx
      obtain ⟨rfl, -⟩ := hh.initiateGc_of_task hk' htask
      exact Or.inr ⟨choice, rfl, hh.next⟩
    · rw [hh.others id hx] at hk'
      exact Or.inl ⟨k', pc, hk', htask⟩
  | resume x ok =>
    obtain ⟨hframe, ⟨k, pcb, hb⟩ | ⟨k, pci, hi⟩⟩ := step_resume hstep
    · by_cases hx : id = x
      · subst hx
        exact absurd htask (hb.not_initiateGc hk' pc)
      · rw [hframe.others id hx] at hk'
        exact Or.inl ⟨k', pc, hk', htask⟩
    · by_cases hx : id = x
      · subst hx
        exact Or.inl ⟨k, pci, hi.before, hi.task⟩
      · rw [hframe.others id hx] at hk'
        exact Or.inl ⟨k', pc, hk', htask⟩
  | heartbeat x =>
    obtain ⟨-, rfl⟩ := step_heartbeat hstep
    exact Or.inl ⟨k', pc, hk', htask⟩
  | start x gcReplica => cases hl
  | beginShutdown x => cases hl
  | continueShutdown x ok => cases hl

/-- **No two calls run at a time** when each begins alone. -/
theorem Progressing.alone_step (h : Progressing c) {l : Label E} (hl : l.fixes = true)
    (halone : beginsAlone c l = true) (hstep : c.step l = some c') (x y : NodeId) (hx : c'.Calls x)
    (hy : c'.Calls y) : x = y := by
  have hbegun : ∀ z w choice, l = .handle z choice → c.nextRequest z = some .initiateGc →
      ¬ c.Calls w := by
    intro z w choice hl hnext
    subst hl
    rw [beginsAlone, hnext, Bool.not_eq_true'] at halone
    exact not_calls_of_someCalls halone w
  rcases calls_step hl hstep hx with hx | ⟨choicex, hlx, hnextx⟩
  · rcases calls_step hl hstep hy with hy | ⟨choicey, hly, hnexty⟩
    · exact h.alone x y hx hy
    · exact absurd hx (hbegun y x choicey hly hnexty)
  · rcases calls_step hl hstep hy with hy | ⟨choicey, hly, -⟩
    · exact absurd hy (hbegun x y choicex hlx hnextx)
    · rw [hlx] at hly
      cases hly
      rfl

omit [DecidableEq E] in
theorem Progressing.finds (h : Progressing c) {k : Core E id} {pc : InitiateGc E} {ok : Bool}
    (hi : Initiated c c' id k pc ok) (hfinds : findsProgress c (.resume id ok) = true) (n : Nat)
    (previousVStable : CausalContext) (m1 : List NodeId) (s : EpochState E) (m : EpochMetadata)
    (hpc : pc = .readFinalDots n previousVStable m1)
    (hafter : (InitiateGc.afterFinalDots k.replica n previousVStable m1 c.storage.readFinalDots).1 =
      .writeEpochState s m) : Progresses previousVStable m.vStable := by
  subst hpc
  have hfollows := h.follows id k _ hi.before hi.task
  rw [findsProgress, hi.before] at hfinds
  simp only [hi.task, decide_eq_true_eq] at hfinds
  obtain ⟨hobsolete, -⟩ := h.rows.stable_below hi.before hi.task rfl
  rw [InitiateGc.afterFinalDots] at hafter
  split at hafter
  · cases hafter
  · next hbeyond =>
    cases hafter
    simp only [InitiateGc.prepareCommit, hobsolete]
    show Progresses previousVStable (GcCoordinator.computeStableTimestamp _ _ _ _ _).1
    rw [Bool.not_eq_true] at hbeyond
    cases hmc : k.replica.gc.matrixClock with
    | none =>
      have hempty : (k.replica.gc.computeStableTimestamp id m1 c.storage.readFinalDots
          k.replica.dvv.effectiveMap).1 = ∅ := by
        rw [GcCoordinator.computeStableTimestamp, hmc]
      have hle : vvLeq ∅ previousVStable = true := vvLeq_iff.mpr fun n => by simp
      rw [hempty, hle] at hbeyond
      cases hbeyond
    | some mc =>
      have hlisted : ∀ p ∈ mc, p ∈ m1 := fun p hp =>
        h.rows.listed id k n previousVStable m1 mc p hi.before hi.task hmc hp
      exact (k.replica.stable_progresses_iff previousVStable c.storage.readFinalDots hmc hlisted
        hfollows.2).mpr hfinds hbeyond

/-- **The step lemma.** -/
theorem Progressing.step (h : Progressing c) {l : Label E} (hok : ProgressGuard c l)
    (hstep : c.step l = some c') : Progressing c' := by
  obtain ⟨hl, halone, hfinds⟩ := hok
  have hrows := (h.rows.step (Label.stays_of_fixes hl) hstep).1
  have halone' := h.alone_step hl halone hstep
  have hsame : SameCalls c c' → Progressing c' := fun hcalls => by
    have hstored : c'.storage.readEpochMetadata = c.storage.readEpochMetadata := by
      rw [Storage.readEpochMetadata, hcalls.epochMetadata]
      rfl
    have hpublished : c'.published = c.published := by
      rw [published, hcalls.commits]
      rfl
    refine ⟨hrows, by rw [hpublished]; exact h.chain, by rw [hpublished, hstored]; exact h.last,
      fun x k' pc hk' htask => ?_, halone'⟩
    rw [hstored]
    rcases hcalls.calls x k' pc hk' htask with rfl | ⟨k, hk, htask⟩
    · trivial
    · exact h.follows x k pc hk htask
  rcases step_gc_cases hstep with hno | ⟨id, ok, rfl, hframe, ⟨k, pc, hb⟩ | ⟨k, pc, hi⟩⟩
  · exact hsame hno.sameCalls
  · exact hsame (hb.sameCalls hframe)
  · have hcalls : c.Calls id := ⟨k, pc, hi.before, hi.task⟩
    have hpc := h.follows id k pc hi.before hi.task
    have hpublished : c'.published = c.published ++ (committedBy ok pc).map (·.vStable) := by
      rw [published, hi.commits, List.map_append]
      rfl
    refine ⟨hrows, ?_, ?_, fun x k' pc' hk' htask => ?_, halone'⟩
    · rw [hpublished]
      rcases resume_commits pc ok k.replica c.storage with ⟨hnone, -⟩ | ⟨m, rfl, hm, -⟩
      · rw [hnone, List.map_nil, List.append_nil]
        exact h.chain
      · -- the new frontier follows the last one
        rw [hm, List.map_singleton, List.isChain_append]
        refine ⟨h.chain, List.IsChain.singleton _, fun v hv v' hv' => ?_⟩
        rw [h.last] at hv
        cases hv
        cases hv'
        exact hpc
    · rw [hpublished, hi.storage]
      rcases resume_commits pc ok k.replica c.storage with ⟨hnone, hst⟩ | ⟨m, rfl, hm, hst⟩
      · rw [hnone, List.map_nil, List.append_nil, hst]
        exact h.last
      · rw [hm, List.map_singleton, List.getLast?_concat, hst]
    · by_cases hx : x = id
      · subst hx
        rw [hi.storage]
        exact hpc.resume (h.rows.registered x k hi.before) (h.finds hi hfinds)
          (hi.await_of_task hk' htask)
      · -- no other call runs
        rw [hframe.others x hx] at hk'
        exact absurd (h.alone x id ⟨k', pc', hk', htask⟩ hcalls) hx

/-- **The published frontier progresses, for runs in which every call finds progress only**: in
every run over a fixed membership in which no two calls overlap, and in which no row a call computes
its frontier from is behind the previous frontier when all of them are ahead of it somewhere, every
committed frontier strictly dominates the one before. -/
theorem frontiers_progress (members : HashMap NodeId Bool) (c : Cluster E)
    (h : Reachable Cluster.step ProgressGuard (fixed members) c) :
    c.published.IsChain Progresses := by
  have hidle : ∀ id k pc, (fixed members : Cluster E).core id = some k →
      k.task ≠ .initiateGc pc := by
    intro id k pc hk htask
    obtain ⟨gcReplica, -, rfl⟩ := core_fixed_cases hk
    cases htask
  have hinit : Progressing (fixed members : Cluster E) :=
    ⟨rows_fixed members, List.IsChain.singleton _, rfl,
      fun id k pc hk htask => absurd htask (hidle id k pc hk),
      fun x y ⟨k, pc, hk, htask⟩ => absurd htask (hidle x k pc hk)⟩
  exact (h.invariant hinit fun s l s' _ hs hok hstep => hs.step hok hstep).chain

/-- Two GC replicas `G` and `H`, and a replica `C`. -/
def gcPairWithC : Cluster String := fixed (AList.ofPairs [("G", true), ("H", true), ("C", false)])

/-- `G` and `C` operate, `H` learns first from `C` and then exchanges with `G`, and `C` learns from
`G` and tells both what it knows. `G` has last heard of `H` before it knew of `G`'s event, and `H`
of `G` before it knew of `C`'s. -/
def laggingRows : List (Label String) :=
  [.connect "G" "H" true, .connect "G" "C" false, .connect "H" "G" true, .connect "H" "C" false,
    .connect "C" "G" true, .connect "C" "H" true] ++ operate "G" ++ operate "C" ++
  [.request "H" .doPullRound, .handle "H" (some "C"), .receive 0, .handle "C" none,
    .receive 0, .handle "H" none,
    .request "H" .doPullRound, .handle "H" (some "G"), .receive 0, .handle "G" none,
      .receive 0, .handle "H" none,
    .handle "H" none, .receive 0, .handle "G" none,
    .request "C" .doPullRound, .handle "C" (some "G"), .receive 0, .handle "G" none, .receive 0,
    .handle "C" (some "G"), .receive 0, .handle "G" none,
    .request "C" .doPullRound, .handle "C" (some "H"), .receive 0, .handle "H" none]

/-- `G` commits an epoch, tells `H` what it knows, and `H` commits the next one. -/
theorem frontiers_progress_twice :
    ∃ c, replay Cluster.step ProgressGuard gcPairWithC
        (laggingRows ++ initiate "G" 8 ++ advertise "G" "H" 0 ++ initiate "H" 8) = some c ∧
      c.published.length = 3 ∧ c.published.IsChain Progresses := by
  have hrun : (replay Cluster.step ProgressGuard gcPairWithC
      (laggingRows ++ initiate "G" 8 ++ advertise "G" "H" 0 ++ initiate "H" 8)).map
        (fun c => c.published.length) = some 3 := by decide +kernel
  obtain ⟨c, hc, hlen⟩ := Option.map_eq_some_iff.mp hrun
  exact ⟨c, hc, hlen, frontiers_progress _ c (reachable_of_replay _ .start hc)⟩

/-- `G` commits the frontier that counts `C`'s event only, and then `H` commits the one that counts
`G`'s event only. -/
theorem frontier_goes_back :
    ∃ c, Reachable Cluster.step (fun c l => l.fixes = true ∧ l.succeeds = true ∧
      beginsAlone c l = true)
        gcPairWithC c ∧ ¬ c.published.IsChain Progresses := by
  have hrun : (replay Cluster.step (fun c l => l.fixes = true ∧ l.succeeds = true ∧
      beginsAlone c l = true)
      gcPairWithC (laggingRows ++ initiate "G" 8 ++ initiate "H" 8)).map
        (fun c => decide (c.published.IsChain fun v v' => vvLt v v' = true)) = some false :=
          by decide +kernel
  obtain ⟨c, hc, hchain⟩ := Option.map_eq_some_iff.mp hrun
  refine ⟨c, reachable_of_replay _ .start hc, fun h => of_decide_eq_false hchain ?_⟩
  exact h.imp fun v v' hprogress => hprogress.lt

end Cluster

end ExperimentalCrdt
