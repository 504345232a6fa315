import ExperimentalCrdt.Cluster.Steps

/-!
# Epoch agreement

The intent object of an epoch is what keeps two initiators from committing it both. It is deleted
after the commit, though, and the epoch number a call claims was read before the claim: an initiator
that is slow between the two can claim an epoch that has been committed and released already, and
commit it a second time (`slow_initiator_commits_again`).

`EpochInv` is the invariant of the runs in which this does not happen (`freshClaim`): whoever is
between its claim and its commit holds the intent of the epoch after the stored one. Since the
intent names its holder, there is at most one such call, and its commit is the only step that moves
the stored epoch.
-/

namespace ExperimentalCrdt

open Transition (Reachable replay reachable_of_replay)

variable {E : Type} {id : NodeId}

/-- The epoch whose intent a call has claimed and not released. -/
def InitiateGc.claimed : InitiateGc E → Option Nat
  | .liveMembersAgain n _ _ => some n
  | .releaseMembershipChange n => some n
  | .readFinalDots n _ _ => some n
  | .releaseNoProgress n => some n
  | .writeEpochState _ epochMetadata => some epochMetadata.epoch
  | .writeEpochMetadata epochMetadata => some epochMetadata.epoch
  | .releaseCommit n => some n
  | _ => none

/-- The epoch whose intent a call holds while its commit is open. -/
def InitiateGc.openEpoch : InitiateGc E → Option Nat
  | .liveMembersAgain n _ _ => some n
  | .releaseMembershipChange n => some n
  | .readFinalDots n _ _ => some n
  | .releaseNoProgress n => some n
  | .writeEpochState _ epochMetadata => some epochMetadata.epoch
  | .writeEpochMetadata epochMetadata => some epochMetadata.epoch
  | _ => none

theorem InitiateGc.claimed_of_openEpoch {pc : InitiateGc E} {n : Nat} (h : pc.openEpoch = some n) :
    pc.claimed = some n := by
  cases pc <;> first | exact h | cases h

namespace Cluster

/-! ## Holding an intent -/

/-- Every call that has claimed an intent is named in it. -/
def Holders (c : Cluster E) : Prop :=
  ∀ id k pc n, c.core id = some k → k.task = .initiateGc pc → pc.claimed = some n →
    c.storage.gcIntents.lookup n = some ⟨n, id⟩

section holders

variable {c c' : Cluster E}

theorem Holders.unique (h : Holders c) {x : NodeId} {k : Core E id} {kx : Core E x}
    {pc pcx : InitiateGc E} {n : Nat} (hk : c.core id = some k) (htask : k.task = .initiateGc pc)
    (hclaimed : pc.claimed = some n) (hkx : c.core x = some kx) (htaskx : kx.task = .initiateGc pcx)
    (hclaimedx : pcx.claimed = some n) : x = id := by
  have h1 := h id k pc n hk htask hclaimed
  rw [h x kx pcx n hkx htaskx hclaimedx, Option.some.injEq, GcIntentRecord.mk.injEq] at h1
  exact h1.2

theorem Holders.sameCalls (h : Holders c) (hstep : SameCalls c c') : Holders c' := by
  intro id k pc n hk htask hclaimed
  rw [hstep.gcIntents]
  rcases hstep.calls id k pc hk htask with rfl | ⟨k0, hk0, htask0⟩
  · cases hclaimed
  · exact h id k0 pc n hk0 htask0 hclaimed

theorem resume_intents {pc : InitiateGc E} (ok : Bool) (r : Replica E id) {st : Storage E}
    (hheld : ∀ n, pc.claimed = some n → st.gcIntents.lookup n = some ⟨n, id⟩) :
    (∀ pc' n, (pc.resume ok r st).1 = .await pc' → pc'.claimed = some n →
      (pc.resume ok r st).2.2.gcIntents.lookup n = some ⟨n, id⟩) ∧
    ∀ n x, x ≠ id → st.gcIntents.lookup n = some ⟨n, x⟩ →
      (pc.resume ok r st).2.2.gcIntents.lookup n = some ⟨n, x⟩ := by
  cases ok with
  | false =>
    obtain ⟨result, hfailed⟩ := pc.resume_failed r st
    rw [hfailed]
    exact ⟨fun pc' n hout => (by cases hout), fun n x _ hn => hn⟩
  | true =>
    have hrelease : ∀ m, pc.claimed = some m → ∀ n x, x ≠ id → st.gcIntents.lookup n = some ⟨n, x⟩ →
        (st.releaseGcIntent m).gcIntents.lookup n = some ⟨n, x⟩ := fun m hm n x hx hn => by
      rw [Storage.lookup_releaseGcIntent, if_neg]
      · exact hn
      · rintro rfl
        rw [hheld n hm, Option.some.injEq, GcIntentRecord.mk.injEq] at hn
        exact hx hn.2.symm
    cases pc with
    | releaseMembershipChange m | releaseNoProgress m | releaseCommit m =>
      exact ⟨fun pc' n hout => (by cases hout), hrelease m rfl⟩
    | claimGcIntent m previousVStable m0 =>
      rcases InitiateGc.resume_claim r st m previousVStable m0 with ⟨-, result, heq⟩ | ⟨hm, heq⟩
      · rw [heq]
        exact ⟨fun pc' n hout => (by cases hout), fun n x _ hn => hn⟩
      · rw [heq]
        refine ⟨fun pc' n hout hclaimed => ?_, fun n x _ hn => ?_⟩
        · cases hout
          obtain rfl := Option.some.inj hclaimed
          exact AList.lookup_insert _
        · rw [AList.lookup_insert_ne]
          · exact hn
          · rintro rfl
            exact hm (AList.mem_of_lookup hn)
    | liveMembersAgain m previousVStable m0 =>
      rcases InitiateGc.resume_again r st m previousVStable m0 with heq | heq <;>
      · rw [heq]
        refine ⟨fun pc' n hout hclaimed => ?_, fun n x _ hn => hn⟩
        cases hout
        exact hheld n hclaimed
    | readFinalDots m previousVStable m1 =>
      refine ⟨fun pc' n hout hclaimed => hheld n ?_, fun n x _ hn => hn⟩
      simp only [InitiateGc.resume, if_true, InitiateGc.afterFinalDots, Progress.await.injEq]
        at hout
      subst hout
      split at hclaimed <;> exact hclaimed
    | writeEpochState | writeEpochMetadata =>
      refine ⟨fun pc' n hout hclaimed => ?_, fun n x _ hn => hn⟩
      cases hout
      exact hheld n hclaimed
    | readEpochMetadata | liveMembers =>
      refine ⟨fun pc' n hout hclaimed => ?_, fun n x _ hn => hn⟩
      cases hout
      cases hclaimed

theorem Holders.initiated (h : Holders c) {k : Core E id} {pc : InitiateGc E} {ok : Bool}
    (hframe : Undisturbed c c' id) (hi : Initiated c c' id k pc ok) : Holders c' := by
  obtain ⟨hown, hothers⟩ := resume_intents ok k.replica fun n hn => h id k pc n hi.before hi.task hn
  intro x kx pcx n hkx htaskx hclaimed
  rw [hi.storage]
  by_cases hx : x = id
  · subst hx
    exact hown pcx n (hi.await_of_task hkx htaskx) hclaimed
  · rw [hframe.others x hx] at hkx
    exact hothers n x hx (h x kx pcx n hkx htaskx hclaimed)

theorem Holders.step [DecidableEq E] {l : Label E} (h : Holders c) (hstep : c.step l = some c') :
    Holders c' := by
  rcases step_gc_cases hstep with hno | ⟨id, ok, rfl, hframe, ⟨k, pc, hb⟩ | ⟨k, pc, hi⟩⟩
  · exact h.sameCalls hno.sameCalls
  · exact h.sameCalls (hb.sameCalls hframe)
  · exact h.initiated hframe hi

theorem holders_fixed (members : HashMap NodeId Bool) : Holders (fixed members : Cluster E) := by
  intro id k pc n hk htask
  obtain ⟨gcReplica, -, rfl⟩ := core_fixed_cases hk
  cases htask

end holders

/-! ## The epoch of an open call -/

/-- The epoch in the stored metadata. -/
def epoch (c : Cluster E) : Nat := c.storage.readEpochMetadata.epoch

/-- The epoch in the stored epoch state. -/
def stateEpoch (c : Cluster E) : Nat := c.storage.readEpochState.epoch

/-- A claim that is answered now and finds no intent is for the epoch after the stored one. -/
def freshClaim (c : Cluster E) : Label E → Bool
  | .resume id _ =>
    match c.task id with
    | some (.initiateGc (.claimGcIntent n _ _)) =>
      decide (n ∈ c.storage.gcIntents ∨ n = c.epoch + 1)
    | _ => true
  | _ => true

theorem epoch_of_freshClaim {c : Cluster E} {k : Core E id} {ok : Bool} {n : Nat}
    {previousVStable : CausalContext} {m0 : List NodeId} (h : freshClaim c (.resume id ok) = true)
    (hk : c.core id = some k) (htask : k.task = .initiateGc (.claimGcIntent n previousVStable m0))
    (hn : n ∉ c.storage.gcIntents) : n = c.epoch + 1 := by
  rw [freshClaim, task, hk, Option.map_some, htask] at h
  exact (of_decide_eq_true h).resolve_left hn

structure EpochInv (c : Cluster E) : Prop where
  holders : Holders c
  next : ∀ id k pc n, c.core id = some k → k.task = .initiateGc pc → pc.openEpoch = some n →
    n = c.epoch + 1
  finished : ∀ id k n, c.core id = some k → k.task = .initiateGc (.releaseCommit n) → n ≤ c.epoch
  commits_le : ∀ m ∈ c.commits, m.epoch ≤ c.epoch
  commits_nodup : (c.commits.map (·.epoch)).Nodup

variable {c c' : Cluster E}

theorem EpochInv.held (h : EpochInv c) {k : Core E id} {pc : InitiateGc E} {n : Nat}
    (hk : c.core id = some k) (htask : k.task = .initiateGc pc) (hopen : pc.openEpoch = some n) :
    c.storage.gcIntents.lookup n = some ⟨n, id⟩ :=
  h.holders id k pc n hk htask (InitiateGc.claimed_of_openEpoch hopen)

theorem EpochInv.holder_unique (h : EpochInv c) {x : NodeId} {k : Core E id} {kx : Core E x}
    {pc pcx : InitiateGc E} {n m : Nat} (hk : c.core id = some k) (htask : k.task = .initiateGc pc)
    (hopen : pc.openEpoch = some n) (hkx : c.core x = some kx) (htaskx : kx.task = .initiateGc pcx)
    (hopenx : pcx.openEpoch = some m) : x = id := by
  -- both calls are for the epoch after the stored one
  have hn := h.next id k pc n hk htask hopen
  have hm := h.next x kx pcx m hkx htaskx hopenx
  refine h.holders.unique hk htask (InitiateGc.claimed_of_openEpoch hopen) hkx htaskx ?_
  rw [InitiateGc.claimed_of_openEpoch hopenx, hm, hn]

theorem EpochInv.sameCalls (h : EpochInv c) (hstep : SameCalls c c') : EpochInv c' := by
  have hepoch : c'.epoch = c.epoch := by
    rw [epoch, epoch, Storage.readEpochMetadata, hstep.epochMetadata]
    rfl
  refine ⟨h.holders.sameCalls hstep, fun id k pc n hk htask hopen => ?_,
    fun id k n hk htask => ?_, ?_, ?_⟩
  · rw [hepoch]
    rcases hstep.calls id k pc hk htask with rfl | ⟨k0, hk0, htask0⟩
    · cases hopen
    · exact h.next id k0 pc n hk0 htask0 hopen
  · rw [hepoch]
    rcases hstep.calls id k _ hk htask with heq | ⟨k0, hk0, htask0⟩
    · cases heq
    · exact h.finished id k0 n hk0 htask0
  · rw [hstep.commits, hepoch]
    exact h.commits_le
  · rw [hstep.commits]
    exact h.commits_nodup

theorem EpochInv.moved (h : EpochInv c) {k k' : Core E id} {pc : InitiateGc E} {ok : Bool}
    (hframe : Undisturbed c c' id) (hi : Initiated c c' id k pc ok)
    (hafter : c'.core id = some k') (hmono : c.epoch ≤ c'.epoch)
    (hself : ∀ pc n, k'.task = .initiateGc pc → pc.openEpoch = some n → n = c'.epoch + 1)
    (hdone : ∀ n, k'.task = .initiateGc (.releaseCommit n) → n ≤ c'.epoch)
    (hrest : ∀ x kx pc n, x ≠ id → c.core x = some kx → kx.task = .initiateGc pc →
      pc.openEpoch = some n → c'.epoch = c.epoch)
    (hcommits : ∀ m ∈ c'.commits, m.epoch ≤ c'.epoch) (hnodup : (c'.commits.map (·.epoch)).Nodup) :
    EpochInv c' := by
  refine ⟨h.holders.initiated hframe hi, fun x k pc n hk htask hopen => ?_,
    fun x k n hk htask => ?_, hcommits, hnodup⟩
  · by_cases hx : x = id
    · subst hx
      rw [hafter] at hk
      obtain rfl := Option.some.inj hk
      exact hself pc n htask hopen
    · rw [hframe.others x hx] at hk
      rw [hrest x k pc n hx hk htask hopen]
      exact h.next x k pc n hk htask hopen
  · by_cases hx : x = id
    · subst hx
      rw [hafter] at hk
      obtain rfl := Option.some.inj hk
      exact hdone n htask
    · rw [hframe.others x hx] at hk
      exact Nat.le_trans (h.finished x k n hk htask) hmono

theorem EpochInv.moved_quietly (h : EpochInv c) {k : Core E id} {pc : InitiateGc E} {ok : Bool}
    (hframe : Undisturbed c c' id) (hi : Initiated c c' id k pc ok)
    (hmeta : c'.storage.epochMetadata = c.storage.epochMetadata) (hcommits : c'.commits = c.commits)
    (htask : ∀ pc', (pc.resume ok k.replica c.storage).1 = .await pc' →
      (pc'.openEpoch = none ∨ pc'.openEpoch = pc.openEpoch) ∧ ∀ n, pc' ≠ .releaseCommit n) :
    EpochInv c' := by
  have hepoch : c'.epoch = c.epoch := by
    rw [epoch, epoch, Storage.readEpochMetadata, hmeta]
    rfl
  refine h.moved hframe hi hi.after (Nat.le_of_eq hepoch.symm) (fun pc' n hpc hopen => ?_)
    (fun n hpc => absurd rfl ((htask _ (hi.await_of_task hi.after hpc)).2 n))
      (fun _ _ _ _ _ _ _ _ => hepoch)
    (by rw [hcommits, hepoch]; exact h.commits_le) (by rw [hcommits]; exact h.commits_nodup)
  rw [hepoch]
  rcases (htask pc' (hi.await_of_task hi.after hpc)).1 with hnone | hsame
  · rw [hnone] at hopen
    cases hopen
  · rw [hsame] at hopen
    exact h.next id k pc n hi.before hi.task hopen

theorem EpochInv.claimed {n : Nat} {previousVStable : CausalContext} {m0 : List NodeId}
    (h : EpochInv c) (hfresh : freshClaim c (.resume id true) = true) (hframe : Undisturbed c c' id)
    (hi : Initiated c c' id k (.claimGcIntent n previousVStable m0) true) :
    EpochInv c' ∧ c.epoch ≤ c'.epoch := by
  have hst := hi.storage
  have hcommits := hi.commits
  simp only [InitiateGc.resume, if_true, Storage.claimGcIntent] at hst
  have hafter := hi.after
  simp only [InitiateGc.resume, if_true, Storage.claimGcIntent] at hafter
  have hsame : c'.commits = c.commits := hcommits.trans (List.append_nil _)
  by_cases hn : n ∈ c.storage.gcIntents
  · simp only [if_pos hn] at hst
    refine ⟨h.moved_quietly hframe hi (by rw [hst]) hsame fun pc' hpc => ?_,
      by rw [epoch, epoch, hst]⟩
    simp [InitiateGc.resume, Storage.claimGcIntent, if_pos hn] at hpc
  · simp only [if_neg hn] at hst hafter
    have hepoch : c'.epoch = c.epoch := by
      rw [epoch, epoch, hst]
      rfl
    refine ⟨h.moved hframe hi hafter (Nat.le_of_eq hepoch.symm) (fun pc' m hpc hopen => ?_)
      (fun m hpc => by cases hpc) (fun _ _ _ _ _ _ _ _ => hepoch)
      (by rw [hsame, hepoch]; exact h.commits_le) (by rw [hsame]; exact h.commits_nodup),
      Nat.le_of_eq hepoch.symm⟩
    cases hpc
    obtain rfl := Option.some.inj hopen
    rw [hepoch]
    exact epoch_of_freshClaim hfresh hi.before hi.task hn

theorem EpochInv.committed {epochMetadata : EpochMetadata} (h : EpochInv c)
    (hframe : Undisturbed c c' id)
    (hi : Initiated c c' id k (.writeEpochMetadata epochMetadata) true) :
    EpochInv c' ∧ c.epoch ≤ c'.epoch := by
  have hst := hi.storage
  have hcommits := hi.commits
  have hsame : c'.storage = c.storage.writeEpochMetadata epochMetadata := hst
  have hcommits : c'.commits = c.commits ++ [epochMetadata] := hcommits
  have hnext := h.next id k _ _ hi.before hi.task rfl
  have hepoch : c'.epoch = epochMetadata.epoch := by
    rw [epoch, hsame]
    rfl
  have hmono : c.epoch ≤ c'.epoch := by omega
  refine ⟨h.moved hframe hi hi.after hmono (fun pc' n hpc hopen => ?_) (fun n hpc => ?_)
    (fun x kx pcx n hx hkx htaskx hopenx =>
      absurd (h.holder_unique hi.before hi.task rfl hkx htaskx hopenx) hx) ?_ ?_, hmono⟩
  · simp only [InitiateGc.resume, if_true, EngineTask.ofProgress] at hpc
    cases hpc
    cases hopen
  · simp only [InitiateGc.resume, if_true, EngineTask.ofProgress] at hpc
    cases hpc
    exact Nat.le_of_eq hepoch.symm
  · intro m hm
    rw [hcommits] at hm
    rcases List.mem_append.mp hm with hm | hm
    · exact Nat.le_trans (h.commits_le m hm) hmono
    · rw [List.mem_singleton] at hm
      rw [hm, hepoch]
  · rw [hcommits, List.map_append]
    refine List.nodup_append.mpr ⟨h.commits_nodup, by simp, fun a ha b hb => ?_⟩
    obtain ⟨m, hm, rfl⟩ := List.mem_map.mp ha
    rw [List.map_singleton, List.mem_singleton] at hb
    have hle := h.commits_le m hm
    omega

variable [DecidableEq E]

/-- **The step lemma**: a fresh claim opens an epoch, a commit closes it, a release gives it back,
and nothing else touches the intents or the stored epoch. -/
theorem EpochInv.step {l : Label E} (h : EpochInv c) (hl : l.succeeds = true)
    (hfresh : freshClaim c l = true) (hstep : c.step l = some c') :
    EpochInv c' ∧ c.epoch ≤ c'.epoch := by
  have hsame : SameCalls c c' → EpochInv c' ∧ c.epoch ≤ c'.epoch := fun hsame => by
    refine ⟨h.sameCalls hsame, Nat.le_of_eq ?_⟩
    rw [epoch, epoch, Storage.readEpochMetadata, Storage.readEpochMetadata, hsame.epochMetadata]
  rcases step_gc_cases hstep with hno | ⟨id, ok, rfl, hframe, ⟨k, pc, hb⟩ | ⟨k, pc, hi⟩⟩
  · exact hsame hno.sameCalls
  · exact hsame (hb.sameCalls hframe)
  clear hsame
  obtain rfl : ok = true := hl
  have hst := hi.storage
  have hcommits := hi.commits
  cases pc with
  | readEpochMetadata | liveMembers =>
    have hsame : c'.storage = c.storage := hst
    refine ⟨h.moved_quietly hframe hi (by rw [hsame])
      (hcommits.trans (List.append_nil _)) fun pc' hpc => ?_,
      by rw [epoch, epoch, hsame]⟩
    simp only [InitiateGc.resume, if_true, Progress.await.injEq] at hpc
    subst hpc
    exact ⟨Or.inl rfl, by simp⟩
  | claimGcIntent n previousVStable m0 => exact h.claimed hfresh hframe hi
  | liveMembersAgain n previousVStable m0 =>
    have hsame : c'.storage = c.storage := by
      rw [hst]
      simp only [InitiateGc.resume, if_true]
      split <;> rfl
    refine ⟨h.moved_quietly hframe hi (by rw [hsame])
      (hcommits.trans (List.append_nil _)) fun pc' hpc => ?_,
      by rw [epoch, epoch, hsame]⟩
    simp only [InitiateGc.resume, if_true] at hpc
    split at hpc <;>
    · simp only [Progress.await.injEq] at hpc
      subst hpc
      exact ⟨Or.inr rfl, by simp⟩
  | readFinalDots n previousVStable m1 =>
    have hsame : c'.storage = c.storage := hst
    refine ⟨h.moved_quietly hframe hi (by rw [hsame])
      (hcommits.trans (List.append_nil _)) fun pc' hpc => ?_,
      by rw [epoch, epoch, hsame]⟩
    simp only [InitiateGc.resume, if_true, InitiateGc.afterFinalDots, Progress.await.injEq] at hpc
    subst hpc
    split
    · exact ⟨Or.inr rfl, by simp⟩
    · exact ⟨Or.inr rfl, by simp⟩
  | writeEpochState epochState epochMetadata =>
    have hsame : c'.storage = c.storage.writeEpochState epochState := hst
    refine ⟨h.moved_quietly hframe hi (by rw [hsame]; rfl) (hcommits.trans (List.append_nil _))
      fun pc' hpc => ?_, by rw [epoch, epoch, hsame]; rfl⟩
    simp only [InitiateGc.resume, if_true, Progress.await.injEq] at hpc
    subst hpc
    exact ⟨Or.inr rfl, by simp⟩
  | writeEpochMetadata epochMetadata => exact h.committed hframe hi
  | releaseMembershipChange n | releaseNoProgress n | releaseCommit n =>
    have hsame : c'.storage = c.storage.releaseGcIntent n := hst
    refine ⟨h.moved_quietly hframe hi (by rw [hsame]; rfl) (hcommits.trans (List.append_nil _))
      fun pc' hpc => ?_, by rw [epoch, epoch, hsame]; rfl⟩
    simp [InitiateGc.resume] at hpc

/-- The guard of the runs in which epochs agree. -/
def AgreementGuard (c : Cluster E) (l : Label E) : Prop := l.succeeds = true ∧ freshClaim c l = true

instance (c : Cluster E) (l : Label E) : Decidable (AgreementGuard c l) :=
  inferInstanceAs (Decidable (_ ∧ _))

theorem epochInv_of_reachable {members : HashMap NodeId Bool}
    (h : Reachable Cluster.step AgreementGuard (fixed members) c) : EpochInv c := by
  refine h.invariant ⟨holders_fixed members, fun id k pc n hk htask => ?_,
    fun id k n hk htask => ?_,
    by simp [fixed], by simp [fixed]⟩ fun s l s' _ hs hok hstep => (hs.step hok.1 hok.2 hstep).1
  all_goals
    obtain ⟨gcReplica, -, rfl⟩ := core_fixed_cases hk
    cases htask

/-- **Epoch agreement, for runs with fresh claims**: no epoch is committed twice, and no step lowers
the stored epoch. -/
theorem epochs_agree (members : HashMap NodeId Bool) (c : Cluster E)
    (h : Reachable Cluster.step AgreementGuard (fixed members) c) :
    (c.commits.map (·.epoch)).Nodup ∧
      ∀ l c', AgreementGuard c l → c.step l = some c' → c.epoch ≤ c'.epoch :=
  ⟨(epochInv_of_reachable h).commits_nodup,
    fun _ _ hok hstep => ((epochInv_of_reachable h).step hok.1 hok.2 hstep).2⟩

/-! ## Runs -/

/-- Two GC replicas that know one event of `G`, and know it of each other. -/
def gossip : List (Label String) :=
  [.connect "G" "H" true, .connect "H" "G" true,
    .request "G" (.clientOperation (.add "x")), .handle "G" none,
    .request "H" .doPullRound, .handle "H" (some "G"), .receive 0, .handle "G" none,
    .receive 0, .handle "H" (some "G"), .receive 0, .handle "G" none,
    .request "G" .doPullRound, .handle "G" (some "H"), .receive 0, .handle "H" none,
    .receive 0, .handle "H" none]

/-- Start `initiate_gc` at `id` and answer its first `n` calls. -/
def initiate (id : NodeId) (n : Nat) : List (Label String) :=
  .request id .initiateGc :: .handle id none :: List.replicate n (.resume id true)

def gcPair : Cluster String := fixed (AList.ofPairs [("G", true), ("H", true)])

/-- `G` commits epoch `1`. -/
theorem epochs_agree_gossip :
    ∃ c, replay Cluster.step AgreementGuard gcPair (gossip ++ initiate "G" 8) = some c ∧
      c.commits.length = 1 ∧ (c.commits.map (·.epoch)).Nodup := by
  have hrun : (replay Cluster.step AgreementGuard gcPair (gossip ++ initiate "G" 8)).map
      (·.commits.length) = some 1 := by decide +kernel
  obtain ⟨c, hc, hlen⟩ := Option.map_eq_some_iff.mp hrun
  exact ⟨c, hc, hlen, (epochs_agree _ c (reachable_of_replay _ .start hc)).1⟩

/-- `H` reads epoch `0` and the members, `G` commits epoch `1` and releases its intent, and `H` goes
on to claim and commit epoch `1` again. -/
theorem slow_initiator_commits_again :
    ∃ c, Reachable Cluster.step (fun _ l => l.succeeds = true) gcPair c ∧
      c.commits.map (·.epoch) = [1, 1] := by
  have hrun : (replay Cluster.step (fun _ l => l.succeeds = true) gcPair
      (gossip ++ initiate "H" 2 ++ initiate "G" 8 ++ List.replicate 5 (.resume "H" true))).map
        (fun c => c.commits.map (·.epoch)) = some [1, 1] := by decide +kernel
  obtain ⟨c, hc, hepochs⟩ := Option.map_eq_some_iff.mp hrun
  exact ⟨c, reachable_of_replay _ .start hc, hepochs⟩

end Cluster

end ExperimentalCrdt
