import ExperimentalCrdt.Gc.Epoch

/-!
# One call of `initiate_gc`

A `World` says how every storage or membership call of one `initiate_gc` turns out, and what the
rest of the cluster does to the bucket before it. `run` lets the call go to its end in such a world
and records the calls it made. No call is made twice and each is followed by a later one or by the
return; `run_step` unfolds a run one call at a time.

The three results are about single calls: what a failed call leaves behind, whether the intent is
given back, and whether the published snapshot covers its own frontier.
-/

namespace ExperimentalCrdt

namespace InitiateGc

variable {E : Type} {id : NodeId}

/-- The storage and membership calls, in the order of the source. -/
inductive Call where
  | readEpochMetadata
  | liveMembers
  | claimGcIntent (n : Nat)
  | liveMembersAgain
  | readFinalDots
  | writeEpochState
  | writeEpochMetadata
  | releaseGcIntent (n : Nat)
deriving DecidableEq, Repr

/-- The call a machine state waits for. -/
def call : InitiateGc E → Call
  | .readEpochMetadata => .readEpochMetadata
  | .liveMembers _ _ => .liveMembers
  | .claimGcIntent n _ _ => .claimGcIntent n
  | .liveMembersAgain _ _ _ => .liveMembersAgain
  | .releaseMembershipChange n => .releaseGcIntent n
  | .readFinalDots _ _ _ => .readFinalDots
  | .releaseNoProgress n => .releaseGcIntent n
  | .writeEpochState _ _ => .writeEpochState
  | .writeEpochMetadata _ => .writeEpochMetadata
  | .releaseCommit n => .releaseGcIntent n

structure World (E : Type) where
  ok : Call → Bool
  interfere : Call → Storage E → Storage E

/-- A world in which nobody else touches the bucket. -/
def World.alone (ok : Call → Bool) : World E := { ok, interfere := fun _ st => st }

structure Outcome (E : Type) (id : NodeId) where
  result : InitiateGcResult
  replica : Replica E id
  storage : Storage E
  calls : List Call

/-- At most this many calls are still to come. -/
def callsLeft : InitiateGc E → Nat
  | .readEpochMetadata => 8
  | .liveMembers _ _ => 7
  | .claimGcIntent _ _ _ => 6
  | .liveMembersAgain _ _ _ => 5
  | .readFinalDots _ _ _ => 4
  | .writeEpochState _ _ => 3
  | .writeEpochMetadata _ => 2
  | .releaseMembershipChange _ => 1
  | .releaseNoProgress _ => 1
  | .releaseCommit _ => 1

/-- Make the awaited calls one after another, at most `fuel` of them. -/
def runFor (w : World E) : Nat → InitiateGc E → Replica E id → Storage E → Option (Outcome E id)
  | 0, _, _, _ => none
  | fuel + 1, pc, r, st =>
    match resume pc (w.ok pc.call) r (w.interfere pc.call st) with
    | (.returned result, r, st) => some { result, replica := r, storage := st, calls := [pc.call] }
    | (.await pc', r, st) =>
      (runFor w fuel pc' r st).map fun o => { o with calls := pc.call :: o.calls }

/-- Let the call go on from `pc` to its return. -/
def run (w : World E) (pc : InitiateGc E) (r : Replica E id) (st : Storage E) :
    Option (Outcome E id) :=
  runFor w pc.callsLeft pc r st

variable (w : World E) (pc : InitiateGc E) (r : Replica E id) (st : Storage E)

theorem callsLeft_resume {pc' : InitiateGc E} {r' : Replica E id} {st' : Storage E} {ok : Bool}
    (h : resume pc ok r st = (.await pc', r', st')) : pc'.callsLeft < pc.callsLeft := by
  cases ok with
  | false =>
    obtain ⟨result, hfailed⟩ := resume_failed pc r st
    rw [hfailed] at h
    cases h
  | true =>
    cases pc with
    | claimGcIntent n previousVStable m0 =>
      rcases resume_claim r st n previousVStable m0 with ⟨-, result, heq⟩ | ⟨-, heq⟩
      · rw [heq] at h
        cases h
      · rw [heq] at h
        cases h
        exact Nat.lt_succ_self _
    | liveMembersAgain n previousVStable m0 =>
      rcases resume_again r st n previousVStable m0 with heq | heq
      · rw [heq] at h
        cases h
        simp [callsLeft]
      · rw [heq] at h
        cases h
        exact Nat.lt_succ_self _
    | readFinalDots n previousVStable m1 =>
      simp only [resume, if_true, afterFinalDots, Prod.mk.injEq, Progress.await.injEq] at h
      obtain ⟨rfl, -, -⟩ := h
      split <;> simp [callsLeft]
    | readEpochMetadata | liveMembers | writeEpochState | writeEpochMetadata =>
      cases h
      exact Nat.lt_succ_self _
    | releaseMembershipChange | releaseNoProgress | releaseCommit => cases h

theorem runFor_eq_run (fuel : Nat) : ∀ (pc : InitiateGc E) (r : Replica E id) (st : Storage E),
    pc.callsLeft ≤ fuel → runFor w fuel pc r st = run w pc r st := by
  have hmore : ∀ (n m : Nat) (pc : InitiateGc E) (r : Replica E id) (st : Storage E),
      pc.callsLeft ≤ n → pc.callsLeft ≤ m → runFor w n pc r st = runFor w m pc r st := by
    intro n
    induction n with
    | zero => intro m pc r st hn; cases pc <;> simp [callsLeft] at hn
    | succ n ih =>
      intro m pc r st hn hm
      cases m with
      | zero => cases pc <;> simp [callsLeft] at hm
      | succ m =>
        rw [runFor, runFor]
        rcases hres : resume pc (w.ok pc.call) r (w.interfere pc.call st)
          with ⟨pc' | result, r', st'⟩
        · have hlt := callsLeft_resume pc r _ hres
          simp only
          rw [ih m pc' r' st' (by omega) (by omega)]
        · rfl
  exact fun pc r st h => hmore fuel _ pc r st h (Nat.le_refl _)

/-- What follows the call `c`, given how it turned out. -/
def runAfter (w : World E) (c : Call) :
    Progress (InitiateGc E) InitiateGcResult × Replica E id × Storage E → Option (Outcome E id)
  | (.returned result, r, st) => some { result, replica := r, storage := st, calls := [c] }
  | (.await pc', r, st) => (run w pc' r st).map fun o => { o with calls := c :: o.calls }

/-- A run is its first call and what follows it. -/
theorem run_step :
    run w pc r st = runAfter w pc.call (resume pc (w.ok pc.call) r (w.interfere pc.call st)) := by
  rw [← runFor_eq_run w (pc.callsLeft + 1) pc r st (Nat.le_succ _), runFor]
  rcases hres : resume pc (w.ok pc.call) r (w.interfere pc.call st) with ⟨pc' | result, r', st'⟩
  · have hlt := callsLeft_resume pc r _ hres
    simp only [runAfter]
    rw [runFor_eq_run w _ pc' r' st' (by omega)]
  · rfl

theorem run_step_alone (ok : Call → Bool) :
    run (World.alone ok) pc r st = runAfter (World.alone ok) pc.call
      (resume pc (ok pc.call) r st) :=
  run_step (World.alone ok) pc r st

theorem runAfter_await {c : Call} {pc' : InitiateGc E} {o : Outcome E id}
    (h : run w pc' r st = some o) :
    runAfter w c (.await pc', r, st) = some { o with calls := c :: o.calls } := by
  rw [runAfter, h]
  rfl

/-! ## The end of a run -/

variable (n : Nat) (previousVStable : CausalContext) (m0 m1 : List NodeId)
  (epochState : EpochState E) (epochMetadata : EpochMetadata)

section afterFinalDots

variable {finalDots : HashMap NodeId Nat} {stable : CausalContext × HashSet NodeId}
  (hstable : r.gc.computeStableTimestamp id m1 finalDots r.dvv.effectiveMap = stable)
include hstable

theorem afterFinalDots_noProgress (h : vvLeq stable.1 previousVStable = true) :
    afterFinalDots r n previousVStable m1 finalDots = (.releaseNoProgress n, r) := by
  rw [afterFinalDots, hstable]
  exact if_pos h

theorem afterFinalDots_progress (h : ¬ vvLeq stable.1 previousVStable = true) :
    afterFinalDots r n previousVStable m1 finalDots =
      (.writeEpochState (prepareCommit r n stable.1 stable.2).2.1
        (prepareCommit r n stable.1 stable.2).2.2,
        (prepareCommit r n stable.1 stable.2).1) := by
  rw [afterFinalDots, hstable]
  exact if_neg h

end afterFinalDots

theorem run_writeEpochState :
    ∃ o, run w (.writeEpochState epochState epochMetadata) r st = some o ∧
      (o.result = .ok none ↔ w.ok .writeEpochState = true ∧ w.ok .writeEpochMetadata = true) ∧
      (Call.releaseGcIntent epochMetadata.epoch ∈ o.calls ↔
        w.ok .writeEpochState = true ∧ w.ok .writeEpochMetadata = true) ∧
      (w.ok .writeEpochState = false → o.replica = r ∧
        o.storage = w.interfere .writeEpochState st) ∧
      (w.ok .writeEpochState = true → w.ok .writeEpochMetadata = false →
        o.storage = w.interfere .writeEpochMetadata
          ((w.interfere .writeEpochState st).writeEpochState epochState)) := by
  rw [run_step, resume]
  unfold call
  by_cases hstate : w.ok .writeEpochState = true
  · by_cases hmeta : w.ok .writeEpochMetadata = true
    · have hrelease :=
        run_step w (.releaseCommit epochMetadata.epoch) (r.setEpoch epochMetadata.epoch)
        ((w.interfere .writeEpochMetadata
          ((w.interfere .writeEpochState st).writeEpochState epochState)).writeEpochMetadata
            epochMetadata)
      have hwrite := run_step w (.writeEpochMetadata epochMetadata) r
        ((w.interfere .writeEpochState st).writeEpochState epochState)
      rw [resume, call, if_pos hmeta, runAfter_await w _ _ hrelease] at hwrite
      rw [if_pos hstate]
      exact ⟨_, runAfter_await w _ _ hwrite, by simp [hstate, hmeta],
        by simp [call, hstate, hmeta], by simp [hstate], by simp [hmeta]⟩
    · have hwrite := run_step w (.writeEpochMetadata epochMetadata) r
        ((w.interfere .writeEpochState st).writeEpochState epochState)
      rw [resume, call, if_neg hmeta] at hwrite
      rw [if_pos hstate]
      exact ⟨_, runAfter_await w _ _ hwrite, by simp [hmeta], by simp [hmeta], by simp [hstate],
        fun _ _ => rfl⟩
  · rw [if_neg hstate]
    exact ⟨_, rfl, by simp [hstate], by simp [hstate], fun _ => ⟨rfl, rfl⟩, by simp [hstate]⟩

theorem runAfter_await_inv {c : Call} {pc' : InitiateGc E} {o : Outcome E id}
    (h : runAfter w c (.await pc', r, st) = some o) :
    ∃ o', run w pc' r st = some o' ∧ o'.result = o.result ∧ o'.replica = o.replica := by
  unfold runAfter at h
  obtain ⟨o', ho', rfl⟩ := Option.map_eq_some_iff.mp h
  exact ⟨o', ho', rfl, rfl⟩

theorem run_writes_committed {o : Outcome E id}
    (h : run w (.writeEpochState epochState epochMetadata) r st = some o)
    (hc : o.result = .ok none) :
    o.replica = r.setEpoch epochMetadata.epoch := by
  rw [run_step, resume] at h
  split at h
  · obtain ⟨o1, h1, hres1, hrep1⟩ := runAfter_await_inv w _ _ h
    rw [run_step, resume] at h1
    split at h1
    · obtain ⟨o2, h2, hres2, hrep2⟩ := runAfter_await_inv w _ _ h1
      rw [run_step, resume] at h2
      obtain rfl := Option.some.inj h2
      rw [← hrep1, ← hrep2]
    · obtain rfl := Option.some.inj h1
      rw [hc] at hres1
      cases hres1
  · obtain rfl := Option.some.inj h
    cases hc

/-- **A call that commits** leaves its replica as the commit prepared it, in the new epoch. -/
theorem run_committed {o : Outcome E id}
    (h : run w (.readFinalDots n previousVStable m1) r st = some o) (hc : o.result = .ok none)
    {stable : CausalContext × HashSet NodeId}
    (hstable : r.gc.computeStableTimestamp id m1 (w.interfere .readFinalDots st).readFinalDots
      r.dvv.effectiveMap = stable) :
    o.replica = (prepareCommit r n stable.1 stable.2).1.setEpoch n := by
  rw [run_step, resume] at h
  unfold call at h
  by_cases hdots : w.ok .readFinalDots = true
  · rw [if_pos hdots] at h
    by_cases hleq : vvLeq stable.1 previousVStable = true
    · rw [afterFinalDots_noProgress r n previousVStable m1 hstable hleq] at h
      obtain ⟨o1, h1, hres1, -⟩ := runAfter_await_inv w _ _ h
      rw [run_step, resume] at h1
      obtain rfl := Option.some.inj h1
      rw [hc] at hres1
      cases hres1
    · rw [afterFinalDots_progress r n previousVStable m1 hstable hleq] at h
      obtain ⟨o1, h1, hres1, hrep1⟩ := runAfter_await_inv w _ _ h
      rw [← hrep1]
      exact run_writes_committed w _ _ _ _ h1 (hres1.trans hc)
  · rw [if_neg hdots] at h
    obtain rfl := Option.some.inj h
    cases hc

/-! ## Giving the intent back -/

/-- Every call between the claim and the release succeeds: the second listing and, unless it shows a
new member, the read of the final dots and, unless the frontier stands still, both writes. -/
def ReachedCallsSucceed (w : World E) (r : Replica E id) (st : Storage E)
    (previousVStable : CausalContext) (m0 : List NodeId) : Prop :=
  let listed := w.interfere .liveMembersAgain st
  let finalDots := (w.interfere .readFinalDots listed).readFinalDots
  w.ok .liveMembersAgain = true ∧
    (newMemberExists m0 listed.liveMembers = true ∨
      w.ok .readFinalDots = true ∧
        (vvLeq
            (r.gc.computeStableTimestamp id listed.liveMembers finalDots r.dvv.effectiveMap).1
            previousVStable = true ∨
          w.ok .writeEpochState = true ∧ w.ok .writeEpochMetadata = true))

/-- **After `claim_gc_intent(n)` returned true, the call releases the intent of `n` exactly when no
call it reaches in between fails.** -/
theorem intent_release_attempted_iff :
    ∃ o, run w (.liveMembersAgain n previousVStable m0) r st = some o ∧
      (Call.releaseGcIntent n ∈ o.calls ↔ ReachedCallsSucceed w r st previousVStable m0) := by
  unfold ReachedCallsSucceed
  rw [run_step, resume]
  unfold call
  by_cases hlist : w.ok .liveMembersAgain = true
  · rw [if_pos hlist]
    by_cases hnew : newMemberExists m0 (w.interfere .liveMembersAgain st).liveMembers = true
    · have hrelease := run_step w (.releaseMembershipChange n) r (w.interfere .liveMembersAgain st)
      simp only [if_pos hnew]
      exact ⟨_, runAfter_await w _ _ hrelease, by simp [call, hlist, hnew]⟩
    · simp only [if_neg hnew]
      have hread := run_step w
        (.readFinalDots n previousVStable (w.interfere .liveMembersAgain st).liveMembers) r
        (w.interfere .liveMembersAgain st)
      rw [resume, call] at hread
      by_cases hdots : w.ok .readFinalDots = true
      · rw [if_pos hdots] at hread
        generalize hstable :
          r.gc.computeStableTimestamp id (w.interfere .liveMembersAgain st).liveMembers
          (w.interfere .readFinalDots (w.interfere .liveMembersAgain st)).readFinalDots
          r.dvv.effectiveMap = stable
        by_cases hleq : vvLeq stable.1 previousVStable = true
        · rw [afterFinalDots_noProgress r n _ _ hstable hleq] at hread
          have hrelease := run_step w (.releaseNoProgress n) r
            (w.interfere .readFinalDots (w.interfere .liveMembersAgain st))
          rw [runAfter_await w _ _ hrelease] at hread
          exact ⟨_, runAfter_await w _ _ hread, by simp [call, hlist, hdots, hleq]⟩
        · rw [afterFinalDots_progress r n _ _ hstable hleq] at hread
          obtain ⟨o, ho, -, hrelease, -⟩ := run_writeEpochState w _ _ _ _
          rw [runAfter_await w _ _ ho] at hread
          refine ⟨_, runAfter_await w _ _ hread, ?_⟩
          rw [Replica.prepareCommit_epoch] at hrelease
          simpa [hlist, hnew, hdots, hleq] using hrelease
      · rw [if_neg hdots] at hread
        exact ⟨_, runAfter_await w _ _ hread, by simp [hnew, hdots]⟩
  · rw [if_neg hlist]
    exact ⟨_, rfl, by simp [hlist]⟩

/-- The bucket while `I` deregisters: its final dot is stored, its registration is gone. -/
def deregistrationWindow : Storage String :=
  { Storage.fresh (AList.ofKeys ["B"]) with finalDots := [("I", 0)] }

/-- A GC replica without events of its own that has been told that `B` knows five of its events. -/
def toldAboutB : Replica String "I" :=
  { Replica.new true with
    gc := (GcCoordinator.new true).updateMatrixClock
      (AList.ofPairs [("B", AList.ofPairs [("B", 5)])]) }

/-- A failed read of the final dots leaves the intent of the claimed epoch in the bucket. -/
theorem intent_kept_after_failed_read :
    ∃ o, run (World.alone (· != .readFinalDots)) .readEpochMetadata toldAboutB
      deregistrationWindow =
        some o ∧
      o.result = .error .failed ∧
      o.calls = [.readEpochMetadata, .liveMembers, .claimGcIntent 1, .liveMembersAgain,
        .readFinalDots] ∧
      o.storage.readGcIntent 1 = some ⟨1, "I"⟩ := by
  refine ⟨_, rfl, rfl, ?_, ?_⟩
  · decide
  · decide

/-! ## What a failed call leaves behind -/

theorem not_newMemberExists_self (l : List NodeId) : newMemberExists l l = false := by
  simp [newMemberExists]

/-- A call that returned an error or aborted has changed neither its replica nor the agreement
between the two stored epochs. -/
def LeavesIntact (r : Replica E id) (o : Outcome E id) : Prop :=
  o.result ≠ .ok none →
    o.replica = r ∧ o.storage.readEpochState.epoch = o.storage.readEpochMetadata.epoch

/-- The frontier and the obsolete nodes that the call computes when nobody interferes. -/
def stableAlone (r : Replica E id) (st : Storage E) : CausalContext × HashSet NodeId :=
  r.gc.computeStableTimestamp id st.liveMembers st.readFinalDots r.dvv.effectiveMap

/-- All calls before the writes succeed, the intent is free, and the frontier has advanced. -/
structure ReachesWrites (ok : Call → Bool) (r : Replica E id) (st : Storage E) : Prop where
  readEpochMetadata : ok .readEpochMetadata = true
  liveMembers : ok .liveMembers = true
  claimGcIntent : ok (.claimGcIntent (st.readEpochMetadata.epoch + 1)) = true
  free : st.readEpochMetadata.epoch + 1 ∉ st.gcIntents
  liveMembersAgain : ok .liveMembersAgain = true
  readFinalDots : ok .readFinalDots = true
  progress : vvLeq (stableAlone r st).1 st.readEpochMetadata.vStable = false

/-- The writes go well, or the first one fails on a commit that changes nothing locally. -/
def WritesHarmless (ok : Call → Bool) (r : Replica E id) (st : Storage E) : Prop :=
  if ok .writeEpochState = true then ok .writeEpochMetadata = true
  else r.NothingToForget (stableAlone r st).1 (stableAlone r st).2

section alone

variable (ok : Call → Bool) {r0 : Replica E id} {C : Prop}

theorem leavesIntact_returned {result : InitiateGcResult} {st' : Storage E}
    (hres : resume pc (ok pc.call) r st = (.returned result, r, st'))
    (hst : st'.readEpochState.epoch = st'.readEpochMetadata.epoch) (hC : C) :
    ∃ o, run (World.alone ok) pc r st = some o ∧ (LeavesIntact r o ↔ C) := by
  refine ⟨_, (run_step_alone pc r st ok).trans (by rw [hres]; rfl),
    iff_of_true (fun _ => ⟨rfl, hst⟩) hC⟩

theorem leavesIntact_await {pc' : InitiateGc E} {r' : Replica E id} {st' : Storage E}
    (hres : resume pc (ok pc.call) r st = (.await pc', r', st'))
    (h : ∃ o, run (World.alone ok) pc' r' st' = some o ∧ (LeavesIntact r0 o ↔ C)) :
    ∃ o, run (World.alone ok) pc r st = some o ∧ (LeavesIntact r0 o ↔ C) := by
  obtain ⟨o, ho, hiff⟩ := h
  refine ⟨_, (run_step_alone pc r st ok).trans (by rw [hres]; exact runAfter_await _ _ _ ho), ?_⟩
  exact hiff

theorem leavesIntact_writes [DecidableEq E] {stable : CausalContext × HashSet NodeId}
    (hst : st.readEpochState.epoch = st.readEpochMetadata.epoch)
    (hn : n = st.readEpochMetadata.epoch + 1) :
    ∃ o, run (World.alone ok) (.writeEpochState (prepareCommit r n stable.1 stable.2).2.1
          (prepareCommit r n stable.1 stable.2).2.2) (prepareCommit r n stable.1 stable.2).1 st =
            some o ∧
      (LeavesIntact r o ↔ if ok .writeEpochState = true then ok .writeEpochMetadata = true
        else r.NothingToForget stable.1 stable.2) := by
  obtain ⟨o, ho, hresult, -, hfail, hhalf⟩ := run_writeEpochState (World.alone ok) _ st
    (prepareCommit r n stable.1 stable.2).2.1 (prepareCommit r n stable.1 stable.2).2.2
  refine ⟨o, ho, ?_⟩
  unfold LeavesIntact
  by_cases hstate : ok .writeEpochState = true
  · rw [if_pos hstate]
    by_cases hmeta : ok .writeEpochMetadata = true
    · exact iff_of_true (fun hne => absurd (hresult.mpr ⟨hstate, hmeta⟩) hne) hmeta
    · refine iff_of_false (fun h => ?_) hmeta
      obtain ⟨-, hep⟩ := h fun hok => hmeta (hresult.mp hok).2
      rw [hhalf hstate (by simpa [World.alone] using hmeta)] at hep
      change n = st.readEpochMetadata.epoch at hep
      omega
  · obtain ⟨hreplica, hstorage⟩ := hfail (by simpa [World.alone] using hstate)
    rw [if_neg hstate, hreplica, hstorage, Replica.prepareCommit_eq_self_iff]
    exact ⟨fun h => (h fun hok => hstate (hresult.mp hok).1).1, fun h _ => ⟨h, hst⟩⟩

/-- **A call that does not commit leaves everything intact exactly when** it does not reach the
writes, or they go well, or the first one fails after a local commit that changed nothing. -/
theorem initiateGc_leaves_intact_iff [DecidableEq E]
    (hst : st.readEpochState.epoch = st.readEpochMetadata.epoch) :
    ∃ o, run (World.alone ok) .readEpochMetadata r st = some o ∧
      (LeavesIntact r o ↔ (ReachesWrites ok r st → WritesHarmless ok r st)) := by
  by_cases hok1 : ok .readEpochMetadata = true
  swap
  · exact leavesIntact_returned _ r st ok (by rw [resume, call, if_neg hok1]) hst
      fun h => absurd h.readEpochMetadata hok1
  refine leavesIntact_await _ r st ok (by rw [resume, call, if_pos hok1]) ?_
  by_cases hok2 : ok .liveMembers = true
  swap
  · exact leavesIntact_returned _ r st ok (by rw [resume, call, if_neg hok2]) hst
      fun h => absurd h.liveMembers hok2
  refine leavesIntact_await _ r st ok (by rw [resume, call, if_pos hok2]) ?_
  by_cases hok3 : ok (.claimGcIntent (st.readEpochMetadata.epoch + 1)) = true
  swap
  · exact leavesIntact_returned _ r st ok (by rw [resume, call, if_neg hok3]) hst
      fun h => absurd h.claimGcIntent hok3
  by_cases hfree : st.readEpochMetadata.epoch + 1 ∈ st.gcIntents
  · exact leavesIntact_returned _ r st ok
      (by rw [resume, call, if_pos hok3, Storage.claimGcIntent, if_pos hfree]) hst
      fun h => absurd hfree h.free
  refine leavesIntact_await _ r st ok
    (by rw [resume, call, if_pos hok3, Storage.claimGcIntent, if_neg hfree]) ?_
  -- the claim touches neither the epochs nor the listings, so from here on `st` stands for both
  generalize hclaimed : ({ st with gcIntents := _ } : Storage E) = st'
  have hmembers : st'.liveMembers = st.liveMembers := by rw [← hclaimed]; rfl
  have hdots : st'.readFinalDots = st.readFinalDots := by rw [← hclaimed]; rfl
  have hstate : st'.readEpochState = st.readEpochState := by rw [← hclaimed]; rfl
  have hmeta : st'.readEpochMetadata = st.readEpochMetadata := by rw [← hclaimed]; rfl
  rw [← hstate, ← hmeta] at hst
  by_cases hok4 : ok .liveMembersAgain = true
  swap
  · exact leavesIntact_returned _ r st' ok (by rw [resume, call, if_neg hok4]) hst
      fun h => absurd h.liveMembersAgain hok4
  refine leavesIntact_await _ r st' ok
    (by rw [resume, call, if_pos hok4]; dsimp only; rw [hmembers, not_newMemberExists_self]; rfl) ?_
  by_cases hok5 : ok .readFinalDots = true
  swap
  · exact leavesIntact_returned _ r st' ok (by rw [resume, call, if_neg hok5]) hst
      fun h => absurd h.readFinalDots hok5
  have hstable :
      r.gc.computeStableTimestamp id st.liveMembers st'.readFinalDots r.dvv.effectiveMap =
      stableAlone r st := by rw [hdots]; rfl
  by_cases hleq : vvLeq (stableAlone r st).1 st.readEpochMetadata.vStable = true
  · refine leavesIntact_await _ r st' ok
      (by rw [resume, call, if_pos hok5, afterFinalDots_noProgress r _ _ _ hstable hleq]) ?_
    refine leavesIntact_returned _ r st' ok rfl ?_ fun h => ?_
    · split
      · exact hst
      · exact hst
    · have hprogress := h.progress
      rw [hleq] at hprogress
      cases hprogress
  · refine leavesIntact_await _ r st' ok
      (by rw [resume, call, if_pos hok5, afterFinalDots_progress r _ _ _ hstable hleq]) ?_
    obtain ⟨o, ho, hiff⟩ := leavesIntact_writes r st' _ ok hst (by rw [hmeta])
    refine ⟨o, ho, hiff.trans ⟨fun h _ => h, fun h => h ?_⟩⟩
    exact ⟨hok1, hok2, hok3, hfree, hok4, hok5, by simpa using hleq⟩

end alone

/-- A GC replica that has added `x` and removed it again. -/
def removedX : Replica String "G" :=
  { gc := .new true
    crdt := (OrSet.new.applyLocal ⟨"G", 1⟩ (.add "x")).applyLocal ⟨"G", 2⟩ (.remove "x")
    dvv := (DotVersionVector.new "G").event.event
    dvv_owner := rfl }

theorem initiateGc_leaves_intact_removedX :
    ∃ o, run (World.alone (· != .writeEpochState)) .readEpochMetadata removedX
        (Storage.fresh (AList.ofKeys ["G"])) = some o ∧
      (LeavesIntact removedX o ↔
        (ReachesWrites (· != .writeEpochState) removedX (Storage.fresh (AList.ofKeys ["G"])) →
          WritesHarmless (· != .writeEpochState) removedX (Storage.fresh (AList.ofKeys ["G"])))) :=
  initiateGc_leaves_intact_iff removedX (Storage.fresh (AList.ofKeys ["G"]))
    (· != .writeEpochState) rfl

/-- A failed write of the epoch state loses the tombstone of `x`; a failed write of the epoch
metadata leaves epoch `1` in one object and epoch `0` in the other. -/
theorem failed_write_is_not_intact :
    (∃ o, run (World.alone (· != .writeEpochState)) .readEpochMetadata removedX
          (Storage.fresh (AList.ofKeys ["G"])) = some o ∧
        o.result = .error .failed ∧ ¬ LeavesIntact removedX o) ∧
      ∃ o, run (World.alone (· != .writeEpochMetadata)) .readEpochMetadata removedX
          (Storage.fresh (AList.ofKeys ["G"])) = some o ∧
        o.result = .error .failed ∧ ¬ LeavesIntact removedX o := by
  refine ⟨⟨_, rfl, rfl, fun h => ?_⟩, ⟨_, rfl, rfl, fun h => ?_⟩⟩
  · have hcrdt := congrArg (fun r : Replica String "G" => r.crdt.tombstones.lookup ⟨"G", 1⟩)
      (h (by simp)).1
    exact absurd hcrdt (by decide)
  · exact absurd (h (by simp)).2 (by decide)

/-! ## The published snapshot and its frontier -/

/-- Whoever starts from the snapshot knows everything under the frontier. -/
def CoversFrontier (epochState : EpochState E) (epochMetadata : EpochMetadata) : Prop :=
  ∀ k, counterAt epochMetadata.vStable k ≤ counterAt epochState.initiatorClock k

theorem coversFrontier_prepareCommit (stable : CausalContext × HashSet NodeId)
    (h : ∀ k, counterAt stable.1 k ≤ r.dvv.effectiveCounter k) :
    CoversFrontier (prepareCommit r n stable.1 stable.2).2.1
      (prepareCommit r n stable.1 stable.2).2.2 := by
  intro k
  show counterAt (removeNodes stable.1 stable.2.keys) k ≤
    counterAt (r.forgetNodes stable.2).dvv.effectiveMap k
  rw [counterAt_removeNodes, DotVersionVector.counterAt_effectiveMap]
  split
  · exact Nat.zero_le _
  · next hk =>
    rw [r.effectiveCounter_forgetNodes stable.2 fun hmem => hk (AList.mem_keys.mp hmem)]
    exact h k

theorem meetMembers_const {contextOf : NodeId → Option CausalContext} {row : CausalContext}
    (l : List NodeId) (hrow : ∀ p ∈ l, contextOf p = some row) : ∀ acc : CausalContext,
      (∀ k, counterAt acc k = counterAt row k) → (∀ k ∈ acc, k ∈ row) →
      ∃ v, GcCoordinator.meetMembers contextOf l (some acc) = some (some v) ∧
        (∀ k, counterAt v k = counterAt row k) ∧ ∀ k ∈ v, k ∈ row := by
  induction l with
  | nil => exact fun acc hacc hkeys => ⟨acc, rfl, hacc, hkeys⟩
  | cons p l ih =>
    intro acc hacc hkeys
    rw [GcCoordinator.meetMembers, hrow p (by simp)]
    refine ih (fun q hq => hrow q (List.mem_cons_of_mem _ hq)) (vvMeet acc row)
      (fun k => ?_) fun k hk => ?_
    · rw [counterAt_vvMeet, hacc k, Nat.min_self]
    · exact (mem_vvMeet hk).2

/-- A GC replica without events of its own whose matrix clock has the row `{b: 1}` for every listed
node. -/
def withEqualRows (id b : NodeId) (listed : List NodeId) : Replica E id :=
  { Replica.new true with
    gc :=
      { epoch := 0
        gcReplica := true
        matrixClock :=
          some (AList.ofPairs (listed.map fun p => (p, (AList.insert b 1 ∅ : CausalContext))))
        matrixClock_isSome := rfl } }

theorem lookup_ofPairs_const {V : Type} (l : List NodeId) (row : V) (k : NodeId) :
    (AList.ofPairs (l.map fun p => (p, row))).lookup k = if k ∈ l then some row else none := by
  suffices h : ∀ m : HashMap NodeId V,
      ((l.map fun p => (p, row)).foldl (fun m e => m.insert e.1 e.2) m).lookup k =
        if k ∈ l then some row else m.lookup k from h ∅
  induction l with
  | nil => simp
  | cons p l ih =>
    intro m
    rw [List.map_cons, List.foldl_cons, ih, AList.lookup_insert_eq]
    by_cases hp : k = p <;> by_cases hl : k ∈ l <;> simp [hp, hl]

theorem computeStableTimestamp_equalRows (b : NodeId) (rest : List NodeId) (hid : id ∉ b :: rest) :
    ∃ v, (withEqualRows id b (b :: rest) : Replica E id).gc.computeStableTimestamp id
      (b :: rest) ∅ ∅ =
        (v, ∅) ∧ counterAt v b = 1 := by
  set row : CausalContext := AList.insert b 1 ∅ with hrow
  set mc : MatrixClock := AList.ofPairs ((b :: rest).map fun p => (p, row)) with hmc
  have hlookup : ∀ k, mc.lookup k = if k ∈ b :: rest then some row else none :=
    lookup_ofPairs_const (b :: rest) row
  have hctx : ∀ p ∈ b :: rest, (if p = id then some ∅ else mc.lookup p) = some row := fun p hp => by
    have hne : p ≠ id := fun h => hid (h ▸ hp)
    rw [if_neg hne, hlookup, if_pos hp]
  obtain ⟨v, hv, hcounter, hkeys⟩ := meetMembers_const rest
    (fun p hp => hctx p (List.mem_cons_of_mem _ hp)) row (fun _ => rfl) fun _ h => h
  refine ⟨v, ?_, ?_⟩
  · have hlive : GcCoordinator.meetMembers (fun p => if p = id then some ∅ else mc.lookup p)
        (b :: rest) none = some (some v) := by
      rw [GcCoordinator.meetMembers, hctx b (by simp)]
      exact hv
    refine GcCoordinator.computeStableTimestamp_of_none_departed rfl hlive fun p hdep => ?_
    obtain ⟨hmem | hmem, hnot⟩ := hdep
    · obtain ⟨ctx, hctx⟩ := AList.mem_iff_lookup.mp hmem
      rw [hlookup, if_neg hnot] at hctx
      cases hctx
    · have hb := hkeys p hmem
      rw [hrow, AList.mem_insert] at hb
      rcases hb with rfl | hb
      · exact hnot (by simp)
      · exact AList.notMem_empty p hb
  · rw [hcounter, hrow, counterAt_insert, if_pos rfl]

/-- **For a given listing, every commit publishes a snapshot that covers its frontier exactly when**
the initiator is listed itself (or nobody is, and nothing commits). -/
theorem published_snapshot_covers_frontier_iff (id : NodeId) (m1 : List NodeId) :
    (∀ (r r' : Replica E id) (n : Nat) (previousVStable : CausalContext)
    (finalDots : HashMap NodeId Nat)
        (epochState : EpochState E) (epochMetadata : EpochMetadata),
      afterFinalDots r n previousVStable m1 finalDots =
        (.writeEpochState epochState epochMetadata, r') →
        CoversFrontier epochState epochMetadata) ↔ id ∈ m1 ∨ m1 = [] := by
  constructor
  · intro h
    by_contra hlisted
    rw [not_or] at hlisted
    obtain ⟨hid, hnil⟩ := hlisted
    obtain ⟨b, rest, rfl⟩ := List.exists_cons_of_ne_nil hnil
    obtain ⟨v, hstable, hb⟩ := computeStableTimestamp_equalRows (E := E) b rest hid
    have hprogress : ¬ vvLeq v ∅ = true := fun hle => by
      have := vvLeq_iff.mp hle b
      rw [hb, counterAt_empty] at this
      omega
    have hcovers := h (withEqualRows id b (b :: rest)) _ 1 ∅ ∅ _ _
      (afterFinalDots_progress _ 1 ∅ (b :: rest) hstable hprogress) b
    have hown : counterAt (withEqualRows (E := E) id b (b :: rest)).dvv.effectiveMap b = 0 := by
      rw [DotVersionVector.counterAt_effectiveMap]
      exact DotVersionVector.effectiveCounter_new b id
    change counterAt v b ≤ counterAt (withEqualRows (E := E) id b (b :: rest)).dvv.effectiveMap b
      at hcovers
    omega
  · intro hlisted r r' n previousVStable finalDots epochState epochMetadata hcommit
    by_cases hleq : vvLeq (r.gc.computeStableTimestamp id m1 finalDots r.dvv.effectiveMap).1
        previousVStable = true
    · rw [afterFinalDots_noProgress r n previousVStable m1 rfl hleq] at hcommit
      simp at hcommit
    · rw [afterFinalDots_progress r n previousVStable m1 rfl hleq, Prod.mk.injEq,
        InitiateGc.writeEpochState.injEq] at hcommit
      obtain ⟨⟨rfl, rfl⟩, -⟩ := hcommit
      refine coversFrontier_prepareCommit r n _ fun k => ?_
      rcases hlisted with hid | rfl
      · rw [← DotVersionVector.counterAt_effectiveMap]
        exact r.gc.stable_le_self hid k
      · rw [GcCoordinator.stable_of_no_members]
        exact Nat.zero_le _

/-- In the window between the deletion of its registration and its end, an initiator commits a
frontier with events of `B` that its own snapshot does not have. -/
theorem published_snapshot_behind_frontier :
    ∃ o, run (World.alone fun _ => true) .readEpochMetadata toldAboutB deregistrationWindow =
      some o ∧
      o.result = .ok none ∧ o.storage.readEpochMetadata.epoch = 1 ∧
      o.storage.readEpochState.epoch = 1 ∧
      ¬ CoversFrontier o.storage.readEpochState o.storage.readEpochMetadata := by
  refine ⟨_, rfl, rfl, ?_, ?_, fun h => ?_⟩
  · decide
  · decide
  · exact absurd (h "B") (by decide)

end InitiateGc

end ExperimentalCrdt
