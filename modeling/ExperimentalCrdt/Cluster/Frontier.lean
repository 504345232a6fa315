import ExperimentalCrdt.Cluster.Epochs
import ExperimentalCrdt.Cluster.Knowledge

/-!
# The committed frontiers are stable

While nobody departs, every frontier that is ever committed is known to every replica that serves,
also to those that join later. The proof follows the vectors that a running call may still commit
(`CallFrontier`): those below the rows of everybody registered, once the members have been listed
again those below the listed rows, and at last the one that was computed.

* A replica that serves is registered and, if it has no row, keeps the call from making progress. So
  before the second listing there is nothing to show, and afterwards only for replicas that complete
  their bootstrap then.
* Such a replica adopts the stored epoch state. Its clock covers the frontier (`StateCovers`),
  because whoever wrote it serves, unless it was written before the call began. In that case the
  bootstrap cannot complete (`Blocked`): as long as the metadata shows the epoch of that state, the
  call holds the intent of the next one, and the bootstrap waits.
* A commit that overtakes another one, with an epoch that has been committed already, changes the
  metadata but does not get around this: to show the epoch of the stored state again it must have
  written that state (`writer`).
-/

namespace ExperimentalCrdt

open Transition (Reachable replay reachable_of_replay)

variable {E : Type} {id : NodeId}

/-- The epoch that a call is about to commit, from the read of the metadata to the write of the
epoch state. -/
def InitiateGc.number : InitiateGc E → Option Nat
  | .liveMembers n _ => some n
  | .claimGcIntent n _ _ => some n
  | .liveMembersAgain n _ _ => some n
  | .readFinalDots n _ _ => some n
  | .writeEpochState _ epochMetadata => some epochMetadata.epoch
  | _ => none

theorem Core.Below.mono {k : Core E id} {members members' : NodeId → Prop} {v : CausalContext}
    (h : k.Below members v) (hsub : ∀ p, members' p → members p) : k.Below members' v :=
  fun p hp => h p (hsub p hp)

theorem Core.Below.of_same {k k' : Core E id} {members : NodeId → Prop} {v : CausalContext}
    (h : k'.Below members v) (hdvv : k'.replica.dvv = k.replica.dvv)
    (hmatrix : k'.replica.gc.matrixClock = k.replica.gc.matrixClock) : k.Below members v := by
  rwa [Core.Below, hdvv, hmatrix] at h

namespace Cluster

/-- The clock in the stored epoch state. -/
def stateClock (c : Cluster E) : CausalContext := c.storage.readEpochState.initiatorClock

/-- Whoever adopts the stored epoch state knows at least `v`. -/
def StateCovers (c : Cluster E) (v : CausalContext) : Prop :=
  ∀ n, counterAt v n ≤ counterAt c.stateClock n

/-- Every serving replica knows at least `v`. -/
def ServingKnow (c : Cluster E) (v : CausalContext) : Prop :=
  ∀ x kx, c.core x = some kx → kx.Serves → ∀ n, counterAt v n ≤ kx.replica.dvv.effectiveCounter n

/-- `v` is a frontier that the call at `k` may still commit. -/
def CallFrontier (c : Cluster E) (k : Core E id) (v : CausalContext) : InitiateGc E → Prop
  | .liveMembers _ _ => k.Below (· ∈ c.storage.registrations) v
  | .claimGcIntent _ _ _ => k.Below (· ∈ c.storage.registrations) v
  | .liveMembersAgain _ _ _ => k.Below (· ∈ c.storage.registrations) v
  | .readFinalDots _ _ m1 => k.Below (· ∈ m1) v
  | .writeEpochState _ epochMetadata => v = epochMetadata.vStable
  | .writeEpochMetadata epochMetadata => v = epochMetadata.vStable
  | _ => False

/-- This bootstrap does not settle on the epoch of the stored state, while the intent of `n` is
held. -/
def BlockedAt (c : Cluster E) (n : Nat) : NewReplicaBootstrap → Prop
  | .readEpochMetadata => True
  | .readGcIntent e =>
    (e = c.stateEpoch → n = c.stateEpoch + 1) ∧ (c.epoch = c.stateEpoch → e = c.stateEpoch)
  | .pollEpochMetadata e next =>
    next = e + 1 ∧ (e = c.stateEpoch → n = c.stateEpoch + 1) ∧
      (c.epoch = c.stateEpoch → e = c.stateEpoch)
  | .pollGcIntent e next new =>
    next = e + 1 ∧ (e = c.stateEpoch → n = c.stateEpoch + 1) ∧
      (c.epoch = c.stateEpoch → e = c.stateEpoch) ∧
      (new = c.stateEpoch → e = c.stateEpoch)
  | .readEpochState e => e ≠ c.stateEpoch

/-- While the intent of `n` is held, no bootstrap settles on the epoch of the stored state. -/
def Blocked (c : Cluster E) (n : Nat) : Prop :=
  (c.epoch = c.stateEpoch → n = c.stateEpoch + 1) ∧
    ∀ x kx pcx, c.core x = some kx → kx.task = .newReplicaBootstrap pcx → c.BlockedAt n pcx

/-- Whoever completes its bootstrap, while the intent of `number` is held if there is one, knows at
least `v` then. -/
def Covered (c : Cluster E) (number : Option Nat) (v : CausalContext) : Prop :=
  c.StateCovers v ∨ ∃ n, number = some n ∧ c.Blocked n

structure Frontiers (c : Cluster E) : Prop where
  rows : Rows c
  holders : Holders c
  prepared : ∀ i k s m, c.core i = some k → k.task = .initiateGc (.writeEpochState s m) →
    s.epoch = m.epoch ∧ ∀ n, k.replica.dvv.effectiveCounter n ≤ counterAt s.initiatorClock n
  writer : ∀ i k m, c.core i = some k → k.task = .initiateGc (.writeEpochMetadata m) →
    m.epoch = c.stateEpoch → ∀ n, k.replica.dvv.effectiveCounter n ≤ counterAt c.stateClock n
  known : ∀ i k pc v, c.core i = some k → k.task = .initiateGc pc →
    c.CallFrontier k v pc → c.ServingKnow v
  covered : ∀ i k pc v, c.core i = some k → k.task = .initiateGc pc → c.CallFrontier k v pc →
    c.Covered pc.number v
  committed : ∀ m ∈ c.commits, c.ServingKnow m.vStable ∧ c.StateCovers m.vStable

variable {c c' : Cluster E}

theorem BlockedAt.carry {n : Nat} {pcx : NewReplicaBootstrap} (h : c.BlockedAt n pcx)
    (hstateEpoch : c'.stateEpoch = c.stateEpoch)
    (hagree : c'.epoch = c.stateEpoch → c.epoch = c.stateEpoch) :
    c'.BlockedAt n pcx := by
  cases pcx with
  | readEpochMetadata => trivial
  | readGcIntent e =>
    rw [BlockedAt, hstateEpoch]
    exact ⟨h.1, fun heq => h.2 (hagree heq)⟩
  | pollEpochMetadata e next =>
    rw [BlockedAt, hstateEpoch]
    exact ⟨h.1, h.2.1, fun heq => h.2.2 (hagree heq)⟩
  | pollGcIntent e next new =>
    rw [BlockedAt, hstateEpoch]
    exact ⟨h.1, h.2.1, fun heq => h.2.2.1 (hagree heq), h.2.2.2⟩
  | readEpochState e =>
    rw [BlockedAt, hstateEpoch]
    exact h

theorem Blocked.carry {n : Nat} (h : c.Blocked n) (hstateEpoch : c'.stateEpoch = c.stateEpoch)
    (hagree : c'.epoch = c.stateEpoch → c.epoch = c.stateEpoch)
    (hbootstraps : ∀ x k' pcx, c'.core x = some k' → k'.task = .newReplicaBootstrap pcx →
      c.BlockedAt n pcx) : c'.Blocked n := by
  refine ⟨fun heq => ?_, fun x k' pcx hk' htask =>
    (hbootstraps x k' pcx hk' htask).carry hstateEpoch hagree⟩
  rw [hstateEpoch] at heq ⊢
  exact h.1 (hagree heq)

/-! ## Before the second listing -/

theorem Rows.servingKnow_of_below (h : Rows c) {k : Core E id} {v : CausalContext}
    (hk : c.core id = some k) (hserves : k.Serves) (hb : k.Below (· ∈ c.storage.registrations) v) :
    c.ServingKnow v := by
  intro x kx hkx _ n
  obtain ⟨k2, hk2, -, hle⟩ := h.knows_of_below hk hserves hb (h.registered x kx hkx)
  rw [hkx] at hk2
  obtain rfl := Option.some.inj hk2
  exact hle n

theorem Rows.not_below_of_bootstrap (h : Rows c) {k : Core E id} {v : CausalContext}
    (hk : c.core id = some k) (hserves : k.Serves) {x : NodeId} {kx : Core E x}
    {pcx : NewReplicaBootstrap} (hkx : c.core x = some kx)
    (htaskx : kx.task = .newReplicaBootstrap pcx) :
    ¬ k.Below (· ∈ c.storage.registrations) v := by
  intro hb
  obtain ⟨k2, hk2, hserves2, -⟩ := h.knows_of_below hk hserves hb (h.registered x kx hkx)
  rw [hkx] at hk2
  obtain rfl := Option.some.inj hk2
  exact hserves2 pcx htaskx

theorem Frontiers.holds_intent (h : Frontiers c) {k : Core E id} {pc : InitiateGc E}
    {v : CausalContext} {n : Nat} (hk : c.core id = some k) (htask : k.task = .initiateGc pc)
    (hv : c.CallFrontier k v pc) (hn : pc.number = some n) {x : NodeId} {kx : Core E x}
    {pcx : NewReplicaBootstrap} (hkx : c.core x = some kx)
    (htaskx : kx.task = .newReplicaBootstrap pcx) :
    (c.storage.readGcIntent n).isSome = true := by
  have hserves := serves_of_initiateGc htask
  have hclaimed : pc.claimed = some n := by
    cases pc with
    | liveMembers | claimGcIntent | liveMembersAgain =>
      exact absurd hv (h.rows.not_below_of_bootstrap hk hserves hkx htaskx)
    | readFinalDots | writeEpochState => exact hn
    | _ => cases hn
  rw [Storage.readGcIntent, h.holders id k pc n hk htask hclaimed]
  rfl

/-- Somebody who bootstraps finds the intent of `n`. -/
def Held (c : Cluster E) (n : Nat) : Prop :=
  ∀ x kx pcx, c.core x = some kx → kx.task = .newReplicaBootstrap pcx →
    (c.storage.readGcIntent n).isSome = true

/-! ## Steps that move no call -/

theorem Frontiers.carry (h : Frontiers c) (hrows : Rows c') (hholders : Holders c')
    (hstate : c'.storage.epochState = c.storage.epochState) (hcommits : c'.commits = c.commits)
    (hreg : ∀ x, x ∈ c.storage.registrations → x ∈ c'.storage.registrations)
    (hcalls : ∀ i k' pc, c'.core i = some k' → k'.task = .initiateGc pc →
      pc = .readEpochMetadata ∨ c.core i = some k')
    (hserving : ∀ v, c.ServingKnow v → c.StateCovers v ∨ (∃ n, c.Held n ∧ c.Blocked n) →
      c'.ServingKnow v)
    (hblocked : ∀ n, c.Held n → c.Blocked n → c'.Blocked n) : Frontiers c' := by
  have hepoch : c'.stateEpoch = c.stateEpoch := by
    rw [stateEpoch, stateEpoch, Storage.readEpochState, hstate]
    rfl
  have hclock : c'.stateClock = c.stateClock := by
    rw [stateClock, stateClock, Storage.readEpochState, hstate]
    rfl
  have hcovers : ∀ {v}, c.StateCovers v → c'.StateCovers v := fun hv => by
    rw [StateCovers, hclock]
    exact hv
  -- a frontier of a call was one before
  have hold : ∀ i k' pc v, c'.core i = some k' → k'.task = .initiateGc pc →
      c'.CallFrontier k' v pc →
      c.core i = some k' ∧ c.CallFrontier k' v pc := fun i k' pc v hk' htask hv => by
    rcases hcalls i k' pc hk' htask with rfl | hk
    · exact hv.elim
    · refine ⟨hk, ?_⟩
      cases pc with
      | liveMembers | claimGcIntent | liveMembersAgain => exact Core.Below.mono hv hreg
      | _ => exact hv
  refine ⟨hrows, hholders, fun i k' s m hk' htask => ?_, fun i k' m hk' htask => ?_,
    fun i k' pc v hk' htask hv => ?_, fun i k' pc v hk' htask hv => ?_, fun m hm => ?_⟩
  · exact h.prepared i k' s m ((hcalls i k' _ hk' htask).resolve_left (by simp)) htask
  · rw [hepoch, hclock]
    exact h.writer i k' m ((hcalls i k' _ hk' htask).resolve_left (by simp)) htask
  · obtain ⟨hk, hvc⟩ := hold i k' pc v hk' htask hv
    refine hserving v (h.known i k' pc v hk htask hvc)
      ((h.covered i k' pc v hk htask hvc).imp_right ?_)
    rintro ⟨n, hn, hb⟩
    exact ⟨n, fun x kx pcx hkx htaskx => h.holds_intent hk htask hvc hn hkx htaskx, hb⟩
  · obtain ⟨hk, hvc⟩ := hold i k' pc v hk' htask hv
    rcases h.covered i k' pc v hk htask hvc with hcov | ⟨n, hn, hb⟩
    · exact Or.inl (hcovers hcov)
    · exact Or.inr ⟨n, hn,
        hblocked n (fun x kx pcx hkx htaskx => h.holds_intent hk htask hvc hn hkx htaskx) hb⟩
  · rw [hcommits] at hm
    obtain ⟨hknown, hcov⟩ := h.committed m hm
    exact ⟨hserving _ hknown (Or.inl hcov), hcovers hcov⟩

/-- No call and no bootstrap moves, and what replicas know only grows. -/
structure Idles (c c' : Cluster E) : Prop where
  calls : ∀ i k' pc, c'.core i = some k' → k'.task = .initiateGc pc →
    pc = .readEpochMetadata ∨ c.core i = some k'
  bootstraps : ∀ x k' pcx, c'.core x = some k' → k'.task = .newReplicaBootstrap pcx →
    pcx = .readEpochMetadata ∨ c.core x = some k'
  serving : ∀ x k', c'.core x = some k' → k'.Serves → ∃ k, c.core x = some k ∧ k.Serves ∧
    ∀ n, k.replica.dvv.effectiveCounter n ≤ k'.replica.dvv.effectiveCounter n

theorem Idles.of_core (h : ∀ x, c'.core x = c.core x) : Idles c c' :=
  ⟨fun i _ _ hk' _ => Or.inr (h i ▸ hk'), fun x _ _ hk' _ => Or.inr (h x ▸ hk'),
    fun x k' hk' hserves => ⟨k', h x ▸ hk', hserves, fun _ => Nat.le_refl _⟩⟩

theorem Frontiers.idle (h : Frontiers c) (hidles : Idles c c') (hrows : Rows c')
    (hholders : Holders c') (hmeta : c'.storage.epochMetadata = c.storage.epochMetadata)
    (hstate : c'.storage.epochState = c.storage.epochState) (hcommits : c'.commits = c.commits)
    (hreg : ∀ x, x ∈ c.storage.registrations → x ∈ c'.storage.registrations) : Frontiers c' := by
  have hepoch : c'.epoch = c.epoch := by rw [epoch, epoch, Storage.readEpochMetadata, hmeta]; rfl
  have hstateEpoch : c'.stateEpoch = c.stateEpoch := by
    rw [stateEpoch, stateEpoch, Storage.readEpochState, hstate]; rfl
  refine h.carry hrows hholders hstate hcommits hreg hidles.calls
    (fun v hv _ x k' hk' hserves n => ?_)
    fun n _ hb => hb.carry hstateEpoch (fun heq => hepoch.symm.trans heq)
      fun x k' pcx hk' htask => ?_
  · obtain ⟨k, hk, hserves0, hle⟩ := hidles.serving x k' hk' hserves
    exact Nat.le_trans (hv x k hk hserves0 n) (hle n)
  · rcases hidles.bootstraps x k' pcx hk' htask with rfl | hk
    · trivial
    · exact hb.2 x k' pcx hk htask

/-! ## A bootstrap moves on -/

variable [DecidableEq E]

theorem resume_returned {pc : NewReplicaBootstrap} {r : Replica E id} {st : Storage E}
    {res : Except StorageError Unit} (hout : (pc.resume true r st).1 = .returned res) :
    pc = .readEpochState st.readEpochState.epoch ∧
      ∀ n, counterAt st.readEpochState.initiatorClock n ≤
        (pc.resume true r st).2.dvv.effectiveCounter n := by
  cases pc with
  | readEpochState e =>
    by_cases he : st.readEpochState.epoch = e
    · refine ⟨by rw [he], fun n => ?_⟩
      simp only [NewReplicaBootstrap.resume, if_true, if_pos he, NewReplicaBootstrap.adopt,
        Replica.setEpoch_dvv, DotVersionVector.effectiveCounter_merge,
        DotVersionVector.effectiveCounter_frontierDvv]
      exact Nat.le_max_right _ _
    · simp [NewReplicaBootstrap.resume, he] at hout
  | readGcIntent e =>
    simp only [NewReplicaBootstrap.resume, if_true] at hout
    split at hout <;> cases hout
  | pollGcIntent e next new =>
    simp only [NewReplicaBootstrap.resume, if_true] at hout
    split at hout <;> cases hout
  | _ => simp [NewReplicaBootstrap.resume] at hout

/-- **A blocked bootstrap stays blocked** while the intent is held. -/
theorem BlockedAt.resume {n : Nat} {pc pc' : NewReplicaBootstrap} {r : Replica E id}
    (hat : c.BlockedAt n pc) (hnext : c.epoch = c.stateEpoch → n = c.stateEpoch + 1)
    (hheld : (c.storage.readGcIntent n).isSome = true)
    (hout : (pc.resume true r c.storage).1 = .await pc') : c.BlockedAt n pc' := by
  cases pc with
  | readEpochMetadata =>
    simp only [NewReplicaBootstrap.resume, if_true, Progress.await.injEq] at hout
    subst hout
    exact ⟨hnext, fun h => h⟩
  | readGcIntent e =>
    obtain ⟨hat, hstored⟩ := hat
    simp only [NewReplicaBootstrap.resume, if_true] at hout
    split at hout
    · cases hout
      exact ⟨rfl, hat, hstored⟩
    · next hnone =>
      cases hout
      -- without an intent of the next epoch, `e` is not the epoch of the stored state
      intro he
      rw [hat he, ← he] at hheld
      exact hnone hheld
  | pollEpochMetadata e next =>
    obtain ⟨rfl, hat, hstored⟩ := hat
    simp only [NewReplicaBootstrap.resume, if_true, Progress.await.injEq] at hout
    subst hout
    exact ⟨rfl, hat, hstored, hstored⟩
  | pollGcIntent e next new =>
    obtain ⟨rfl, hat, hstored, hnew⟩ := hat
    simp only [NewReplicaBootstrap.resume, if_true] at hout
    split at hout
    · next hexit =>
      cases hout
      intro he
      have hsame := hnew he
      rw [hat hsame, ← hsame] at hheld
      rcases hexit with hlt | hnone
      · omega
      · rw [Option.isNone_iff_eq_none.mp hnone] at hheld
        cases hheld
    · cases hout
      exact ⟨rfl, hat, hstored⟩
  | readEpochState e =>
    simp only [NewReplicaBootstrap.resume, if_true] at hout
    split at hout
    · cases hout
    · cases hout
      exact hat

theorem Frontiers.bootstrapped (h : Frontiers c) {k : Core E id} {pc : NewReplicaBootstrap}
    (hframe : Undisturbed c c' id) (hb : Bootstrapped c c' id k pc true) : Frontiers c' := by
  have hepoch : c'.epoch = c.epoch := by rw [epoch, epoch, hb.storage]
  have hstateEpoch : c'.stateEpoch = c.stateEpoch := by rw [stateEpoch, stateEpoch, hb.storage]
  obtain ⟨hrows, hgrow⟩ := h.rows.bootstrapped hframe hb
  refine h.carry hrows (h.holders.sameCalls (hb.sameCalls hframe)) (by rw [hb.storage]) hb.commits
    (by rw [hb.storage]; exact fun _ hx => hx) (fun i k' pci hk' htask => Or.inr ?_)
    (fun v hv hcov x k' hk' hserves n => ?_)
    fun n hheld hblocked => hblocked.carry hstateEpoch (fun heq => hepoch.symm.trans heq)
      fun x k' pcx hk' htask => ?_
  · rw [← hframe.others i fun heq => by subst heq; exact hb.not_initiateGc hk' pci htask]
    exact hk'
  · by_cases hx : x = id
    · subst hx
      -- whoever completes now was not blocked, so the stored state covers the frontier
      have hk2 := hk'
      rw [hb.after] at hk2
      obtain rfl := Option.some.inj hk2
      cases hout : (pc.resume true k.replica c.storage).1 with
      | await pc' => exact absurd (by rw [hout]; rfl) (hserves pc')
      | returned res =>
        obtain ⟨hpc, hclock⟩ := resume_returned hout
        rcases hcov with hcov | ⟨m, -, hblocked⟩
        · exact Nat.le_trans (hcov n) (hclock n)
        · have hat := hblocked.2 x k pc hb.before hb.task
          rw [hpc] at hat
          exact absurd rfl hat
    · rw [hframe.others x hx] at hk'
      exact hv x k' hk' hserves n
  · by_cases hx : x = id
    · subst hx
      exact (hblocked.2 x k pc hb.before hb.task).resume hblocked.1
        (hheld x k pc hb.before hb.task) (hb.await_of_task hk' htask)
    · rw [hframe.others x hx] at hk'
      exact hblocked.2 x k' pcx hk' htask

/-! ## A call moves on -/

section call

omit [DecidableEq E]

variable {k k' : Core E id} {pc : InitiateGc E}

theorem Rows.same_of_initiated (h : Rows c) (hi : Initiated c c' id k pc true)
    (hk' : c'.core id = some k') :
    k'.replica.dvv = k.replica.dvv ∧ k'.replica.gc.matrixClock = k.replica.gc.matrixClock := by
  rw [hi.after] at hk'
  obtain rfl := Option.some.inj hk'
  exact h.initiateGc_keeps true hi.before hi.task

theorem Rows.servingKnow_initiated (h : Rows c) (hframe : Undisturbed c c' id)
    (hi : Initiated c c' id k pc true) {v : CausalContext} (hv : c.ServingKnow v) :
    c'.ServingKnow v := by
  intro x kx hkx hserves n
  by_cases hx : x = id
  · subst hx
    rw [(h.same_of_initiated hi hkx).1]
    exact hv x k hi.before (serves_of_initiateGc hi.task) n
  · rw [hframe.others x hx] at hkx
    exact hv x kx hkx hserves n

theorem Rows.callFrontier_initiated (h : Rows c) (hi : Initiated c c' id k pc true)
    (hk' : c'.core id = some k') {pc' : InitiateGc E} {v : CausalContext}
    (hv : c'.CallFrontier k' v pc') :
    c.CallFrontier k v pc' := by
  obtain ⟨hdvv, hmatrix⟩ := h.same_of_initiated hi hk'
  have hreg : c'.storage.registrations = c.storage.registrations := by
    rw [hi.storage]
    exact (resume_keeps pc true k.replica c.storage).1
  cases pc' with
  | liveMembers | claimGcIntent | liveMembersAgain =>
    rw [CallFrontier, hreg] at hv
    exact Core.Below.of_same hv hdvv hmatrix
  | readFinalDots n previousVStable m1 => exact Core.Below.of_same hv hdvv hmatrix
  | _ => exact hv

theorem Frontiers.call_moves (h : Frontiers c) (hframe : Undisturbed c c' id)
    (hi : Initiated c c' id k pc true)
    (hprepared : ∀ s m, (pc.resume true k.replica c.storage).1 = .await (.writeEpochState s m) →
      s.epoch = m.epoch ∧ ∀ n, k.replica.dvv.effectiveCounter n ≤ counterAt s.initiatorClock n)
    (hwriter : ∀ m, (pc.resume true k.replica c.storage).1 = .await (.writeEpochMetadata m) →
      m.epoch = c'.stateEpoch → ∀ n, k.replica.dvv.effectiveCounter n ≤ counterAt c'.stateClock n)
    (hwriters : ∀ i ki m, i ≠ id → c.core i = some ki →
      ki.task = .initiateGc (.writeEpochMetadata m) →
      m.epoch = c'.stateEpoch → ∀ n, ki.replica.dvv.effectiveCounter n ≤ counterAt c'.stateClock n)
    (hself : ∀ pc' v, (pc.resume true k.replica c.storage).1 = .await pc' → c.CallFrontier k v pc' →
      c.ServingKnow v ∧ c'.Covered pc'.number v)
    (hcovered : ∀ number v, c.ServingKnow v → c.Covered number v → c'.Covered number v)
    (hcommitted : ∀ m ∈ c'.commits, c.ServingKnow m.vStable ∧ c'.StateCovers m.vStable) :
    Frontiers c' := by
  have hrows := (h.rows.initiated hframe hi).1
  have hreg : c'.storage.registrations = c.storage.registrations := by
    rw [hi.storage]
    exact (resume_keeps pc true k.replica c.storage).1
  have hknow := fun v => h.rows.servingKnow_initiated hframe hi (v := v)
  -- the frontiers of the other calls are those they had
  have hold : ∀ i ki pci v, i ≠ id → c'.core i = some ki → ki.task = .initiateGc pci →
      c'.CallFrontier ki v pci → c.core i = some ki ∧ c.CallFrontier ki v pci :=
    fun i ki pci v hne hki htask hv => by
      rw [hframe.others i hne] at hki
      refine ⟨hki, ?_⟩
      cases pci with
      | liveMembers | claimGcIntent | liveMembersAgain =>
        exact Core.Below.mono hv fun p hp => hreg ▸ hp
      | _ => exact hv
  refine ⟨hrows, h.holders.initiated hframe hi, fun i ki s m hki htask => ?_,
    fun i ki m hki htask => ?_,
    fun i ki pci v hki htask hv => ?_, fun i ki pci v hki htask hv => ?_,
    fun m hm => ⟨hknow _ (hcommitted m hm).1, (hcommitted m hm).2⟩⟩
  all_goals by_cases hid : i = id
  · subst hid
    rw [(h.rows.same_of_initiated hi hki).1]
    exact hprepared s m (hi.await_of_task hki htask)
  · rw [hframe.others i hid] at hki
    exact h.prepared i ki s m hki htask
  · subst hid
    rw [(h.rows.same_of_initiated hi hki).1]
    exact hwriter m (hi.await_of_task hki htask)
  · rw [hframe.others i hid] at hki
    exact hwriters i ki m hid hki htask
  · subst hid
    exact hknow v
      (hself pci v (hi.await_of_task hki htask) (h.rows.callFrontier_initiated hi hki hv)).1
  · obtain ⟨hki, hv⟩ := hold i ki pci v hid hki htask hv
    exact hknow v (h.known i ki pci v hki htask hv)
  · subst hid
    exact (hself pci v (hi.await_of_task hki htask) (h.rows.callFrontier_initiated hi hki hv)).2
  · obtain ⟨hki, hv⟩ := hold i ki pci v hid hki htask hv
    exact hcovered _ v (h.known i ki pci v hki htask hv) (h.covered i ki pci v hki htask hv)

theorem Initiated.bootstraps {x : NodeId} {kx : Core E x} {pcx : NewReplicaBootstrap}
    (hi : Initiated c c' id k pc true) (hframe : Undisturbed c c' id) (hkx : c'.core x = some kx)
    (htaskx : kx.task = .newReplicaBootstrap pcx) : c.core x = some kx := by
  rw [← hframe.others x fun heq => by subst heq; exact hi.not_bootstrap hkx pcx htaskx]
  exact hkx

theorem Frontiers.call_moves_quietly (h : Frontiers c) (hframe : Undisturbed c c' id)
    (hi : Initiated c c' id k pc true)
    (hmeta : c'.storage.epochMetadata = c.storage.epochMetadata)
    (hstate : c'.storage.epochState = c.storage.epochState) (hcommits : c'.commits = c.commits)
    (hprepared : ∀ s m, (pc.resume true k.replica c.storage).1 = .await (.writeEpochState s m) →
      s.epoch = m.epoch ∧ ∀ n, k.replica.dvv.effectiveCounter n ≤ counterAt s.initiatorClock n)
    (hwriter : ∀ m, (pc.resume true k.replica c.storage).1 ≠ .await (.writeEpochMetadata m))
    (hself : ∀ pc' v, (pc.resume true k.replica c.storage).1 = .await pc' → c.CallFrontier k v pc' →
      c.CallFrontier k v pc ∧ pc'.number = pc.number ∨
        k.Below (· ∈ c.storage.registrations) v ∧ pc'.number = some (c.epoch + 1)) :
        Frontiers c' := by
  have hepoch : c'.epoch = c.epoch := by rw [epoch, epoch, Storage.readEpochMetadata, hmeta]; rfl
  have hstateEpoch : c'.stateEpoch = c.stateEpoch := by
    rw [stateEpoch, stateEpoch, Storage.readEpochState, hstate]; rfl
  have hclock : c'.stateClock = c.stateClock := by
    rw [stateClock, stateClock, Storage.readEpochState, hstate]; rfl
  have hcovers : ∀ v, c.StateCovers v → c'.StateCovers v := fun v hv => by rwa [StateCovers, hclock]
  have hcovered : ∀ number v, c.Covered number v → c'.Covered number v := fun number v hv => by
    refine hv.imp (hcovers v) ?_
    rintro ⟨n, hn, hb⟩
    exact ⟨n, hn, hb.carry hstateEpoch (fun heq => hepoch.symm.trans heq)
      fun x kx pcx hkx htaskx => hb.2 x kx pcx (hi.bootstraps hframe hkx htaskx) htaskx⟩
  have hserves := serves_of_initiateGc hi.task
  refine h.call_moves hframe hi hprepared (fun m hm => absurd hm (hwriter m))
    (fun i ki m _ hki htaski => ?_)
    (fun pc' v hpc hv => ?_) (fun number v _ hv => hcovered number v hv) fun m hm => ?_
  · rw [hstateEpoch, hclock]
    exact h.writer i ki m hki htaski
  · rcases hself pc' v hpc hv with ⟨hv, hnumber⟩ | ⟨hb, hnumber⟩
    · refine ⟨h.known id k pc v hi.before hi.task hv, hcovered _ v ?_⟩
      rw [hnumber]
      exact h.covered id k pc v hi.before hi.task hv
    · -- nobody bootstraps, and the number is the epoch after the stored one
      refine ⟨h.rows.servingKnow_of_below hi.before hserves hb,
        hcovered _ v (Or.inr ⟨_, hnumber, ?_, ?_⟩)⟩
      · intro heq
        rw [heq]
      · intro x kx pcx hkx htaskx
        exact absurd hb (h.rows.not_below_of_bootstrap hi.before hserves hkx htaskx)
  · rw [hcommits] at hm
    exact ⟨(h.committed m hm).1, hcovers _ (h.committed m hm).2⟩

theorem ServingKnow.covered_by {v clock : CausalContext} (hv : c.ServingKnow v)
    (hk : c.core id = some k) (hserves : k.Serves)
    (hclock : ∀ n, k.replica.dvv.effectiveCounter n ≤ counterAt clock n) (n : NodeId) :
    counterAt v n ≤ counterAt clock n :=
  Nat.le_trans (hv id k hk hserves n) (hclock n)

theorem Frontiers.weighed {n : Nat} {previousVStable : CausalContext} {m1 : List NodeId}
    (h : Frontiers c) (hframe : Undisturbed c c' id)
    (hi : Initiated c c' id k (.readFinalDots n previousVStable m1) true) :
    Frontiers c' := by
  have hst := hi.storage
  have hcommits := hi.commits
  have hsame : c'.storage = c.storage := hst
  have hout : ∀ pc', (InitiateGc.resume (.readFinalDots n previousVStable m1) true k.replica
      c.storage).1 = .await pc' → pc' = .releaseNoProgress n ∨
        ∃ s v, pc' = .writeEpochState s ⟨n, v, ∅⟩ ∧ k.Below (· ∈ m1) v ∧ s.epoch = n ∧
          s.initiatorClock = k.replica.dvv.effectiveMap := fun pc' hpc => by
    simp only [InitiateGc.resume, if_true, Progress.await.injEq] at hpc
    rcases h.rows.afterFinalDots_cases hi.before hi.task with heq | ⟨v, hb, heq⟩
    · rw [heq] at hpc
      exact Or.inl hpc.symm
    · rw [heq] at hpc
      exact Or.inr ⟨_, v, hpc.symm, hb, rfl, rfl⟩
  refine h.call_moves_quietly hframe hi (by rw [hsame]) (by rw [hsame])
    (hcommits.trans (List.append_nil _)) (fun s m hpc => ?_)
      (fun m hpc => ?_) fun pc' v hpc hv => ?_
  · rcases hout _ hpc with heq | ⟨s', v, heq, -, hepoch, hclock⟩
    · cases heq
    · cases heq
      refine ⟨hepoch, fun p => ?_⟩
      rw [hclock, DotVersionVector.counterAt_effectiveMap]
  · rcases hout _ hpc with heq | ⟨s', v, heq, -⟩ <;> cases heq
  · rcases hout pc' hpc with rfl | ⟨s', v', rfl, hb, -⟩
    · exact hv.elim
    · obtain rfl : v = v' := hv
      exact Or.inl ⟨hb, rfl⟩

theorem Frontiers.wroteState {s : EpochState E} {m : EpochMetadata} (h : Frontiers c)
    (hframe : Undisturbed c c' id) (hi : Initiated c c' id k (.writeEpochState s m) true) :
    Frontiers c' := by
  have hst := hi.storage
  have hcommits := hi.commits
  have hserves := serves_of_initiateGc hi.task
  have hsame : c'.storage = c.storage.writeEpochState s := hst
  obtain ⟨hepoch, hclock⟩ := h.prepared id k s m hi.before hi.task
  have hstateEpoch : c'.stateEpoch = s.epoch := by rw [stateEpoch, hsame]; rfl
  have hstateClock : c'.stateClock = s.initiatorClock := by rw [stateClock, hsame]; rfl
  have hcovers : ∀ v, c.ServingKnow v → c'.StateCovers v := fun v hv => by
    rw [StateCovers, hstateClock]
    exact hv.covered_by hi.before hserves hclock
  refine h.call_moves hframe hi (fun s' m' hpc => by cases hpc) (fun m' hpc _ => ?_)
    (fun i ki m' hne hki htaski heq => ?_) (fun pc' v hpc hv => ?_)
    (fun number v hknown _ => Or.inl (hcovers v hknown)) fun m' hm' => ?_
  · rw [hstateClock]
    exact hclock
  · -- two calls that commit the same epoch hold the same intent
    rw [hstateEpoch, hepoch] at heq
    exact absurd (h.holders.unique hi.before hi.task rfl hki htaski (congrArg some heq)) hne
  · cases hpc
    have hknown := h.known id k _ v hi.before hi.task hv
    exact ⟨hknown, Or.inl (hcovers v hknown)⟩
  · rw [hcommits.trans (List.append_nil _)] at hm'
    exact ⟨(h.committed m' hm').1, hcovers _ (h.committed m' hm').1⟩

theorem Frontiers.wroteMetadata {m : EpochMetadata} (h : Frontiers c) (hframe : Undisturbed c c' id)
    (hi : Initiated c c' id k (.writeEpochMetadata m) true) :
    Frontiers c' := by
  have hst := hi.storage
  have hcommits := hi.commits
  have hserves := serves_of_initiateGc hi.task
  have hsame : c'.storage = c.storage.writeEpochMetadata m := hst
  have hepoch : c'.epoch = m.epoch := by rw [epoch, hsame]; rfl
  have hstateEpoch : c'.stateEpoch = c.stateEpoch := by rw [stateEpoch, stateEpoch, hsame]; rfl
  have hstateClock : c'.stateClock = c.stateClock := by rw [stateClock, stateClock, hsame]; rfl
  have hcovers : ∀ v, c.StateCovers v → c'.StateCovers v :=
    fun v hv => by rwa [StateCovers, hstateClock]
  refine h.call_moves hframe hi (fun s' m' hpc => by cases hpc) (fun m' hpc _ => by cases hpc)
    (fun i ki m' _ hki htaski => ?_) (fun pc' v hpc hv => ?_)
      (fun number v hknown hv => ?_) fun m' hm' => ?_
  · rw [hstateEpoch, hstateClock]
    exact h.writer i ki m' hki htaski
  · cases hpc
    exact hv.elim
  · by_cases hagree : m.epoch = c.stateEpoch
    · -- the stored state is that of this call
      refine Or.inl fun p => ?_
      rw [hstateClock]
      exact hknown.covered_by hi.before hserves (h.writer id k m hi.before hi.task hagree) p
    · refine hv.imp (hcovers v) ?_
      rintro ⟨n, hn, hb⟩
      exact ⟨n, hn, hb.carry hstateEpoch (fun heq => absurd (hepoch.symm.trans heq) hagree)
        fun x kx pcx hkx htaskx => hb.2 x kx pcx (hi.bootstraps hframe hkx htaskx) htaskx⟩
  · rw [hcommits] at hm'
    rcases List.mem_append.mp hm' with hm' | hm'
    · exact ⟨(h.committed m' hm').1, hcovers _ (h.committed m' hm').2⟩
    · rw [committedBy, if_pos rfl, List.mem_singleton] at hm'
      subst hm'
      refine ⟨h.known id k _ _ hi.before hi.task rfl, hcovers _ ?_⟩
      rcases h.covered id k _ m'.vStable hi.before hi.task rfl with hcov | ⟨n, hn, -⟩
      · exact hcov
      · cases hn

/-- **A call moves on.** Between its writes it keeps its frontiers and its number. Its epoch state
covers all that anybody is known to know, and its metadata is of the epoch of that state, or of one
that the stored state is not of. -/
theorem Frontiers.initiated (h : Frontiers c) (hframe : Undisturbed c c' id)
    (hi : Initiated c c' id k pc true) : Frontiers c' := by
  have hst := hi.storage
  have hcommits := hi.commits
  cases pc with
  | readEpochMetadata =>
    have hsame : c'.storage = c.storage := hst
    refine h.call_moves_quietly hframe hi (by rw [hsame]) (by rw [hsame])
      (hcommits.trans (List.append_nil _)) (fun s m hpc => by cases hpc) (fun m hpc => by cases hpc)
      fun pc' v hpc hv => ?_
    cases hpc
    exact Or.inr ⟨hv, rfl⟩
  | liveMembers n previousVStable =>
    have hsame : c'.storage = c.storage := hst
    refine h.call_moves_quietly hframe hi (by rw [hsame]) (by rw [hsame])
      (hcommits.trans (List.append_nil _)) (fun s m hpc => by cases hpc) (fun m hpc => by cases hpc)
      fun pc' v hpc hv => ?_
    cases hpc
    exact Or.inl ⟨hv, rfl⟩
  | claimGcIntent n previousVStable m0 =>
    rcases InitiateGc.resume_claim k.replica c.storage n previousVStable m0
      with ⟨-, result, heq⟩ | ⟨-, heq⟩
    all_goals
      rw [heq] at hst
      refine h.call_moves_quietly hframe hi (by rw [hst]) (by rw [hst])
        (hcommits.trans (List.append_nil _))
        (fun s m hpc => ?_) (fun m hpc => ?_) fun pc' v hpc hv => ?_
      all_goals
        rw [heq] at hpc
        cases hpc
    exact Or.inl ⟨hv, rfl⟩
  | liveMembersAgain n previousVStable m0 =>
    rcases InitiateGc.resume_again k.replica c.storage n previousVStable m0 with heq | heq
    all_goals
      have hsame : c'.storage = c.storage := by rw [hst, heq]
      refine h.call_moves_quietly hframe hi (by rw [hsame]) (by rw [hsame])
        (hcommits.trans (List.append_nil _)) (fun s m hpc => ?_)
          (fun m hpc => ?_) fun pc' v hpc hv => ?_
      all_goals
        rw [heq] at hpc
        cases hpc
    · exact hv.elim
    · exact Or.inl ⟨Core.Below.mono hv fun p hp => (c.storage.mem_liveMembers p).mpr hp, rfl⟩
  | readFinalDots n previousVStable m1 => exact h.weighed hframe hi
  | writeEpochState s m => exact h.wroteState hframe hi
  | writeEpochMetadata m => exact h.wroteMetadata hframe hi
  | releaseMembershipChange n | releaseNoProgress n | releaseCommit n =>
    have hsame : c'.storage = c.storage.releaseGcIntent n := hst
    exact h.call_moves_quietly hframe hi (by rw [hsame]; rfl) (by rw [hsame]; rfl)
      (hcommits.trans (List.append_nil _)) (fun s m hpc => by cases hpc) (fun m hpc => by cases hpc)
      fun pc' v hpc => by cases hpc

end call

/-! ## Runs in which nobody departs -/

/-- The guard of these runs; the storage calls succeed. -/
def StayingGuard (_ : Cluster E) (l : Label E) : Prop := l.stays = true ∧ l.succeeds = true

instance (c : Cluster E) (l : Label E) : Decidable (StayingGuard c l) :=
  inferInstanceAs (Decidable (_ ∧ _))

theorem Idles.of_handled (h : Rows c) {choice : Option NodeId} {s : Server E id}
    {req : CrdtEngineRequest E} (hh : Handled c c' id choice s req) : Idles c c' := by
  refine ⟨fun i k' pc hk' hpc => ?_, fun x k' pcx hk' hpcx => ?_, fun x k' hk' hserves => ?_⟩
  · by_cases hi : i = id
    · subst hi
      exact Or.inl (hh.initiateGc_of_task hk' hpc).2
    · exact Or.inr (hh.others i hi ▸ hk')
  · by_cases hx : x = id
    · subst hx
      exact absurd hpcx (hh.not_bootstrap hk' pcx)
    · exact Or.inr (hh.others x hx ▸ hk')
  · by_cases hx : x = id
    · subst hx
      rw [hh.after] at hk'
      obtain rfl := Option.some.inj hk'
      refine ⟨s.core, hh.before, fun pc hpc => ?_,
        fun n => effectiveCounter_le_handle s (fun _ _ => h.notMem_obsolete n) choice⟩
      rw [Server.core, hh.idle] at hpc
      cases hpc
    · exact ⟨k', hh.others x hx ▸ hk', hserves, fun _ => Nat.le_refl _⟩

/-- **The step lemma**: while nobody departs, the frontiers that are committed, or may still be,
stay known to all that serve. -/
theorem Frontiers.step {l : Label E} (h : Frontiers c) (hl : StayingGuard c l)
    (hstep : c.step l = some c') :
    Frontiers c' := by
  have hrows := (h.rows.step hl.1 hstep).1
  have hholders := h.holders.step hstep
  cases l with
  | request | receive | duplicate | drop | connect | disconnect =>
    have hq : Quiet _ c c' := step_quiet (by exact trivial) hstep
    exact h.idle (.of_core hq.core) hrows hholders (by rw [hq.storage])
      (by rw [hq.storage]) hq.commits
      (by rw [hq.storage]; exact fun _ hx => hx)
  | handle id choice =>
    obtain ⟨s, req, hh⟩ := step_handle hstep
    exact h.idle (.of_handled h.rows hh) hrows hholders (by rw [hh.storage])
      (by rw [hh.storage]) hh.commits
      (by rw [hh.storage]; exact fun _ hx => hx)
  | resume id ok =>
    obtain rfl : ok = true := hl.2
    obtain ⟨hframe, ⟨k, pc, hb⟩ | ⟨k, pc, hi⟩⟩ := step_resume hstep
    · exact h.bootstrapped hframe hb
    · exact h.initiated hframe hi
  | start id gcReplica =>
    obtain ⟨hframe, -, hafter, hst, hcommits⟩ := step_start hstep
    -- who starts has no call, and bootstraps from the beginning
    have hself : ∀ k', c'.core id = some k' →
        k'.task = .newReplicaBootstrap .readEpochMetadata := by
      intro k' hk'
      rw [hafter] at hk'
      obtain rfl := Option.some.inj hk'
      rfl
    refine h.idle ⟨fun i k' pc hk' hpc => ?_, fun x k' pcx hk' hpcx => ?_,
      fun x k' hk' hserves => ?_⟩ hrows
      hholders (by rw [hst]; simp) (by rw [hst]; simp) hcommits fun x hx => ?_
    · by_cases hi : i = id
      · subst hi
        rw [hself k' hk'] at hpc
        cases hpc
      · exact Or.inr (hframe.others i hi ▸ hk')
    · by_cases hx : x = id
      · subst hx
        rw [hself k' hk'] at hpcx
        cases hpcx
        exact Or.inl rfl
      · exact Or.inr (hframe.others x hx ▸ hk')
    · by_cases hx : x = id
      · subst hx
        exact absurd (hself k' hk') (hserves _)
      · exact ⟨k', hframe.others x hx ▸ hk', hserves, fun _ => Nat.le_refl _⟩
    · rw [hst]
      exact (c.storage.mem_register id x).mpr (Or.inr hx)
  | heartbeat id =>
    obtain ⟨-, rfl⟩ := step_heartbeat hstep
    exact h.idle (.of_core fun _ => rfl) hrows hholders (Storage.register_epochMetadata _ _)
      (Storage.register_epochState _ _) rfl fun x hx =>
        (c.storage.mem_register id x).mpr (Or.inr hx)
  | beginShutdown id => cases hl.1
  | continueShutdown id ok => cases hl.1

theorem frontiers_of_reachable {members : HashMap NodeId Bool}
    (h : Reachable Cluster.step StayingGuard (fixed members) c) : Frontiers c := by
  have hno : ∀ i k pc, (fixed members : Cluster E).core i = some k → k.task ≠ .initiateGc pc := by
    intro i k pc hk htask
    obtain ⟨gcReplica, -, rfl⟩ := core_fixed_cases hk
    cases htask
  refine h.invariant ⟨rows_fixed members, holders_fixed members, fun i k s m hk htask => ?_,
    fun i k m hk htask => ?_, fun i k pc v hk htask => ?_, fun i k pc v hk htask => ?_,
    fun m hm => by cases hm⟩ fun s l s' _ hs hok hstep => hs.step hok hstep
  all_goals exact absurd htask (hno i k _ hk)

/-- Whether `id` has completed its bootstrap. -/
def idle (c : Cluster E) (id : NodeId) : Bool :=
  match c.task id with
  | some .idle => true
  | _ => false

omit [DecidableEq E] in
theorem serves_of_idle (h : c.idle id = true) : ∃ k, c.core id = some k ∧ k.Serves := by
  rw [idle] at h
  split at h
  · next htask =>
    obtain ⟨k, hk, htask⟩ := Option.map_eq_some_iff.mp htask
    exact ⟨k, hk, fun pc hpc => by rw [htask] at hpc; cases hpc⟩
  · cases h

/-- `G` commits epoch `1` over its own events and `H`'s knowledge of them; `J` joins afterwards. -/
def lateJoiner : List (Label String) :=
  gossip ++ initiate "G" 8 ++ .start "J" false :: List.replicate 3 (.resume "J" true)

end Cluster

end ExperimentalCrdt
