import ExperimentalCrdt.Cluster.Epochs
import ExperimentalCrdt.Gc.StableTimestamp

/-!
# Joining while an epoch commits

A bootstrap samples the metadata, then the intent of the next epoch, and then waits for an epoch
state with exactly the epoch it settled on. It is stuck if a commit has moved the epoch state past
that epoch, since committed epochs do not come back: the commit may slip between the read of the
metadata and the read of the intent (`bootstrap_overtaken`).

In the runs of `JoinGuard` the epoch a bootstrap settles on is still the stored one when it settles,
and no frontier is computed with a leftover row of a replica that is still bootstrapping. Then no
bootstrap is ever stuck: a joiner is registered before it reads anything, so a call that lists the
members later finds no row for it and makes no progress (`ReckonsWith`), and a call that listed them
earlier is for the epoch after the one the joiner saw, whose intent the joiner checks.
-/

namespace ExperimentalCrdt

open Transition (Reachable replay reachable_of_replay)

variable {E : Type} {id : NodeId}

/-- The call cannot commit without having listed `j`. -/
def InitiateGc.ReckonsWith (j : NodeId) : InitiateGc E → Prop
  | .readFinalDots _ _ m1 => j ∈ m1
  | .writeEpochState _ _ => False
  | .writeEpochMetadata _ => False
  | _ => True

namespace Cluster

/-- A bootstrap that settles now does so on the stored epoch. -/
def settlesOnStored (c : Cluster E) : Label E → Bool
  | .resume id _ =>
    match c.task id with
    | some (.newReplicaBootstrap (.readGcIntent e)) =>
      decide ((c.storage.readGcIntent (e + 1)).isNone = true → e = c.epoch)
    | some (.newReplicaBootstrap (.pollGcIntent e next new)) =>
      decide (e < new ∨ (c.storage.readGcIntent next).isNone = true → new = c.epoch)
    | _ => true
  | _ => true

/-- Whether `id` is still bootstrapping. -/
def bootstrapping (c : Cluster E) (id : NodeId) : Bool :=
  match c.task id with
  | some (.newReplicaBootstrap _) => true
  | _ => false

/-- A frontier that is computed now uses no row of a listed replica that is still bootstrapping. -/
def noLeftoverRow (c : Cluster E) : Label E → Bool
  | .resume id _ =>
    match c.core id with
    | none => true
    | some k =>
      match k.task with
      | .initiateGc (.readFinalDots _ _ m1) =>
        m1.all fun p => !c.bootstrapping p || decide (p ∉ k.replica.gc.matrixClock.getD ∅)
      | _ => true
  | _ => true

/-- The guard of the runs in which no bootstrap is stuck. -/
def JoinGuard (c : Cluster E) (l : Label E) : Prop :=
  (l.succeeds = true ∧ freshClaim c l = true) ∧ settlesOnStored c l = true ∧
    noLeftoverRow c l = true

instance (c : Cluster E) (l : Label E) : Decidable (JoinGuard c l) :=
  inferInstanceAs (Decidable (_ ∧ _))

/-! ## Joiners are registered -/

/-- A bootstrapping replica is registered, and its shutdown has not passed the engine. -/
def Registered (c : Cluster E) : Prop :=
  ∀ id k pc, c.core id = some k → k.task = .newReplicaBootstrap pc →
    id ∈ c.storage.registrations ∧ (k.shutdown = .running ∨ k.shutdown = .awaitFinalDot)

variable {c c' : Cluster E}

theorem Registered.of_step (h : Registered c) (hothers : ∀ x, x ≠ id → c'.core x = c.core x)
    (hreg : ∀ x, x ≠ id → x ∈ c.storage.registrations → x ∈ c'.storage.registrations)
    (hself : ∀ k pc, c'.core id = some k → k.task = .newReplicaBootstrap pc →
      id ∈ c'.storage.registrations ∧ (k.shutdown = .running ∨ k.shutdown = .awaitFinalDot)) :
    Registered c' := by
  intro x k pc hk htask
  by_cases hx : x = id
  · subst hx
    exact hself k pc hk htask
  · rw [hothers x hx] at hk
    obtain ⟨hmem, hphase⟩ := h x k pc hk htask
    exact ⟨hreg x hx hmem, hphase⟩

variable [DecidableEq E]

theorem Registered.step {l : Label E} (h : Registered c) (hstep : c.step l = some c') :
    Registered c' := by
  cases l with
  | request | receive | duplicate | drop | connect | disconnect =>
    have hq : Quiet _ c c' := step_quiet (by exact trivial) hstep
    intro x k pc hk htask
    rw [hq.core] at hk
    rw [hq.storage]
    exact h x k pc hk htask
  | handle id choice =>
    obtain ⟨s, req, hh⟩ := step_handle hstep
    refine h.of_step hh.others (fun x _ hx => by rw [hh.storage]; exact hx) fun k pc hk htask => ?_
    exact absurd htask (hh.not_bootstrap hk pc)
  | resume id ok =>
    obtain ⟨hframe, ⟨k, pc, hb⟩ | ⟨k, pc, hi⟩⟩ := step_resume hstep
    · refine h.of_step hframe.others (fun x _ hx => by rw [hb.storage]; exact hx)
        fun k' pc' hk' _ => ?_
      rw [hb.after] at hk'
      obtain rfl := Option.some.inj hk'
      rw [hb.storage]
      exact h id k pc hb.before hb.task
    · refine h.of_step hframe.others
        (fun x _ hx => by rw [hi.storage, (resume_keeps pc ok _ _).1]; exact hx)
        fun k' pc' hk' htask => absurd htask (hi.not_bootstrap hk' pc')
  | start id gcReplica =>
    obtain ⟨hframe, -, hafter, hst, -⟩ := step_start hstep
    refine h.of_step hframe.others (fun x _ hx => ?_) fun k pc hk _ => ?_
    · rw [hst]
      exact (c.storage.mem_register id x).mpr (Or.inr hx)
    · rw [hafter] at hk
      obtain rfl := Option.some.inj hk
      rw [hst]
      exact ⟨(c.storage.mem_register id id).mpr (Or.inl rfl), Or.inl rfl⟩
  | heartbeat id =>
    obtain ⟨-, rfl⟩ := step_heartbeat hstep
    intro x k pc hk htask
    obtain ⟨hmem, hphase⟩ := h x k pc hk htask
    exact ⟨(c.storage.mem_register id x).mpr (Or.inr hmem), hphase⟩
  | beginShutdown id =>
    obtain ⟨hframe, hst, -, k, hk, -, hafter⟩ := step_beginShutdown hstep
    refine h.of_step hframe.others (fun x _ hx => by rw [hst]; exact hx) fun k' pc hk' htask => ?_
    rw [hafter] at hk'
    obtain rfl := Option.some.inj hk'
    rw [hst]
    exact ⟨(h id k pc hk htask).1, Or.inr rfl⟩
  | continueShutdown id ok =>
    obtain ⟨hframe, -, k, hk, hcase⟩ := step_continueShutdown hstep
    -- past the engine's answer, `id` is not bootstrapping
    have hnot : k.shutdown ≠ .running → k.shutdown ≠ .awaitFinalDot → ∀ pc,
        k.task ≠ .newReplicaBootstrap pc := fun h1 h2 pc htask =>
      (h id k pc hk htask).2.elim h1 h2
    rcases hcase with ⟨finalDot, hphase, hcase⟩ | ⟨hphase, hafter, hst⟩ | ⟨hphase, hafter, hst⟩
    · have hno := hnot (by simp [hphase]) (by simp [hphase])
      split at hcase
      · obtain ⟨hafter, hst⟩ := hcase
        refine h.of_step hframe.others (fun x _ hx => by rw [hst]; exact hx)
          fun k' pc hk' htask => ?_
        rw [hafter] at hk'
        obtain rfl := Option.some.inj hk'
        exact absurd htask (hno pc)
      · obtain ⟨hafter, hst⟩ := hcase
        refine h.of_step hframe.others (fun x _ hx => by rw [hst]; exact hx)
          fun k' pc hk' htask => ?_
        rw [hafter] at hk'
        obtain rfl := Option.some.inj hk'
        exact absurd htask (hno pc)
    · have hno := hnot (by simp [hphase]) (by simp [hphase])
      refine h.of_step hframe.others (fun x hx hmem => ?_) fun k' pc hk' htask => ?_
      · rw [hst]
        split
        · exact AList.mem_erase.mpr ⟨hx, hmem⟩
        · exact hmem
      · rw [hafter] at hk'
        obtain rfl := Option.some.inj hk'
        exact absurd htask (hno pc)
    · refine h.of_step hframe.others (fun x _ hx => by rw [hst]; exact hx) fun k' pc hk' => ?_
      rw [hafter] at hk'
      cases hk'

/-! ## The invariant -/

/-- No call can commit without having listed `j`, except for the epoch after `e`; and if that epoch
or a later one is stored already, the epoch state is not ahead of it. -/
structure Unsettled (c : Cluster E) (j : NodeId) (e : Nat) : Prop where
  calls : ∀ i k pc n, c.core i = some k → k.task = .initiateGc pc → pc.openEpoch = some n →
    n ≤ e + 1 ∨ pc.ReckonsWith j
  seen : e ≤ c.epoch
  state : c.epoch ≤ e ∨ c.stateEpoch ≤ c.epoch

/-- No call can commit without having listed `j`, and the epoch state has not passed `e`. -/
structure Settled (c : Cluster E) (j : NodeId) (e : Nat) : Prop where
  calls : ∀ i k pc n, c.core i = some k → k.task = .initiateGc pc → pc.openEpoch = some n →
    pc.ReckonsWith j
  state : c.stateEpoch ≤ e

/-- What holds while the bootstrap of `j` awaits the given call. -/
def Waits (c : Cluster E) (j : NodeId) : NewReplicaBootstrap → Prop
  | .readEpochMetadata => True
  | .readGcIntent e => Unsettled c j e
  | .pollEpochMetadata e next => next = e + 1 ∧ Unsettled c j e
  | .pollGcIntent e next _ => next = e + 1 ∧ Unsettled c j e
  | .readEpochState e => Settled c j e

omit [DecidableEq E] in
theorem Waits.mono {j : NodeId} {pc : NewReplicaBootstrap} (h : Waits c j pc)
    (hunsettled : ∀ e, Unsettled c j e → Unsettled c' j e)
    (hsettled : ∀ e, Settled c j e → Settled c' j e) :
    Waits c' j pc := by
  cases pc with
  | readEpochMetadata => trivial
  | readGcIntent e => exact hunsettled e h
  | pollEpochMetadata e next => exact ⟨h.1, hunsettled e h.2⟩
  | pollGcIntent e next new => exact ⟨h.1, hunsettled e h.2⟩
  | readEpochState e => exact hsettled e h

structure BootInv (c : Cluster E) : Prop where
  epochs : EpochInv c
  registered : Registered c
  state_le : c.stateEpoch ≤ c.epoch ∨
    c.stateEpoch = c.epoch + 1 ∧ c.epoch + 1 ∈ c.storage.gcIntents
  before_write : ∀ i k pc n, c.core i = some k → k.task = .initiateGc pc → pc.openEpoch = some n →
    (∀ m, pc ≠ .writeEpochMetadata m) → c.stateEpoch ≤ c.epoch
  same_epoch : ∀ i k s m, c.core i = some k → k.task = .initiateGc (.writeEpochState s m) →
    s.epoch = m.epoch
  waits : ∀ j k pc, c.core j = some k → k.task = .newReplicaBootstrap pc → Waits c j pc

/-! ## Steps that move no call -/

section sameCalls
omit [DecidableEq E]

variable (hsame : SameCalls c c')
include hsame

theorem epoch_of_sameCalls : c'.epoch = c.epoch := by
  rw [epoch, epoch, Storage.readEpochMetadata, hsame.epochMetadata]
  rfl

theorem stateEpoch_of_sameCalls : c'.stateEpoch = c.stateEpoch := by
  rw [stateEpoch, stateEpoch, Storage.readEpochState, hsame.epochState]
  rfl

theorem openCalls_of_sameCalls {P : NodeId → InitiateGc E → Nat → Prop}
    (h : ∀ i k pc n, c.core i = some k → k.task = .initiateGc pc →
      pc.openEpoch = some n → P i pc n) :
    ∀ i k pc n, c'.core i = some k → k.task = .initiateGc pc → pc.openEpoch = some n →
    P i pc n := by
  intro i k pc n hk htask hopen
  rcases hsame.calls i k pc hk htask with rfl | ⟨k0, hk0, htask0⟩
  · cases hopen
  · exact h i k0 pc n hk0 htask0 hopen

theorem Unsettled.sameCalls {j : NodeId} {e : Nat} (h : Unsettled c j e) : Unsettled c' j e :=
  ⟨openCalls_of_sameCalls hsame h.calls, by rw [epoch_of_sameCalls hsame]; exact h.seen,
    by rw [epoch_of_sameCalls hsame, stateEpoch_of_sameCalls hsame]; exact h.state⟩

theorem Settled.sameCalls {j : NodeId} {e : Nat} (h : Settled c j e) : Settled c' j e :=
  ⟨openCalls_of_sameCalls hsame h.calls, by rw [stateEpoch_of_sameCalls hsame]; exact h.state⟩

theorem BootInv.sameCalls (h : BootInv c) (hregistered : Registered c')
    (hwaits : ∀ j k pc, c'.core j = some k → k.task = .newReplicaBootstrap pc → Waits c' j pc) :
    BootInv c' where
  epochs := h.epochs.sameCalls hsame
  registered := hregistered
  state_le := by
    rw [epoch_of_sameCalls hsame, stateEpoch_of_sameCalls hsame, hsame.gcIntents]
    exact h.state_le
  before_write := by
    rw [epoch_of_sameCalls hsame, stateEpoch_of_sameCalls hsame]
    exact openCalls_of_sameCalls hsame h.before_write
  same_epoch i k s m hk htask := by
    rcases hsame.calls i k _ hk htask with heq | ⟨k0, hk0, htask0⟩
    · cases heq
    · exact h.same_epoch i k0 s m hk0 htask0
  waits := hwaits

end sameCalls

omit [DecidableEq E] in
theorem BootInv.noGcProgress (h : BootInv c) (hregistered : Registered c')
    (hno : NoGcProgress c c') :
    BootInv c' := by
  have hsame := hno.sameCalls
  refine h.sameCalls hsame hregistered fun j k pc hk htask => ?_
  rcases hno.tasks j k hk with ⟨k0, hk0, heq⟩ | heq | ⟨-, heq⟩
  · exact (h.waits j k0 pc hk0 (heq.trans htask)).mono (fun e => Unsettled.sameCalls hsame)
      fun e => Settled.sameCalls hsame
  · rw [htask] at heq
    cases heq
  · rw [htask] at heq
    cases heq
    trivial

/-! ## A bootstrap moves on -/

omit [DecidableEq E] in
theorem BootInv.settled_of_free (h : BootInv c) (j : NodeId)
    (hfree : (c.storage.readGcIntent (c.epoch + 1)).isNone = true) : Settled c j c.epoch := by
  have hnot : c.epoch + 1 ∉ c.storage.gcIntents :=
    AList.lookup_eq_none.mp (Option.isNone_iff_eq_none.mp hfree)
  refine ⟨fun i k pc n hk htask hopen => ?_, ?_⟩
  · have hn := h.epochs.next i k pc n hk htask hopen
    subst hn
    exact absurd (AList.mem_of_lookup (h.epochs.held hk htask hopen)) hnot
  · exact h.state_le.resolve_right fun hahead => hnot hahead.2

theorem BootInv.waits_resume (h : BootInv c) {j : NodeId} {k : Core E j}
    {pc pc' : NewReplicaBootstrap} (hk : c.core j = some k)
    (htask : k.task = .newReplicaBootstrap pc) (hguard : settlesOnStored c (.resume j true) = true)
    {r : Replica E j} (hres : (pc.resume true r c.storage).1 = .await pc') : Waits c j pc' := by
  have hw := h.waits j k pc hk htask
  rw [settlesOnStored, task, hk, Option.map_some, htask] at hguard
  cases pc with
  | readEpochMetadata =>
    simp only [NewReplicaBootstrap.resume, if_true, Progress.await.injEq] at hres
    subst hres
    refine ⟨fun i ki pci n hki htaski hopen => Or.inl ?_, Nat.le_refl _, Or.inl (Nat.le_refl _)⟩
    exact Nat.le_of_eq (h.epochs.next i ki pci n hki htaski hopen)
  | readGcIntent e =>
    simp only [NewReplicaBootstrap.resume, if_true] at hres
    split at hres
    · simp only [Progress.await.injEq] at hres
      subst hres
      exact ⟨rfl, hw⟩
    · next hnone =>
      simp only [Progress.await.injEq] at hres
      subst hres
      have hnone : (c.storage.readGcIntent (e + 1)).isNone = true := by
        simpa [Option.isNone_iff_eq_none] using hnone
      obtain rfl := (of_decide_eq_true hguard) hnone
      exact h.settled_of_free j hnone
  | pollEpochMetadata e next =>
    simp only [NewReplicaBootstrap.resume, if_true, Progress.await.injEq] at hres
    subst hres
    exact hw
  | pollGcIntent e next new =>
    obtain ⟨rfl, hu⟩ := hw
    simp only [NewReplicaBootstrap.resume, if_true] at hres
    split at hres
    · next hexit =>
      simp only [Progress.await.injEq] at hres
      subst hres
      obtain rfl := (of_decide_eq_true hguard) hexit
      rcases Nat.lt_or_ge e c.epoch with hlt | hge
      · -- a later epoch has been committed: whoever commits now has listed `j`
        refine ⟨fun i ki pci n hki htaski hopen => ?_, hu.state.resolve_left (by omega)⟩
        have hn := h.epochs.next i ki pci n hki htaski hopen
        exact (hu.calls i ki pci n hki htaski hopen).resolve_left (by omega)
      · have hseen := hu.seen
        have heq : e = c.epoch := by omega
        rw [heq] at hexit
        exact h.settled_of_free j (hexit.resolve_left (Nat.lt_irrefl _))
    · simp only [Progress.await.injEq] at hres
      subst hres
      exact ⟨rfl, hu⟩
  | readEpochState e =>
    simp only [NewReplicaBootstrap.resume, if_true] at hres
    split at hres
    · cases hres
    · simp only [Progress.await.injEq] at hres
      subst hres
      exact hw

theorem BootInv.bootstrapped (h : BootInv c) {k : Core E id} {pc : NewReplicaBootstrap}
    (hregistered : Registered c') (hframe : Undisturbed c c' id)
    (hb : Bootstrapped c c' id k pc true) (hguard : settlesOnStored c (.resume id true) = true) :
    BootInv c' := by
  have hsame := hb.sameCalls hframe
  have hmono : ∀ {j : NodeId} {pc : NewReplicaBootstrap}, Waits c j pc → Waits c' j pc := fun hw =>
    hw.mono (fun e => Unsettled.sameCalls hsame) fun e => Settled.sameCalls hsame
  refine h.sameCalls hsame hregistered fun j kj pcj hkj htaskj => ?_
  by_cases hj : j = id
  · subst hj
    exact hmono (h.waits_resume hb.before hb.task hguard (hb.await_of_task hkj htaskj))
  · rw [hframe.others j hj] at hkj
    exact hmono (h.waits j kj pcj hkj htaskj)

/-! ## A call moves on -/

omit [DecidableEq E] in
theorem releases_without_row {r : Replica E id} {n : Nat} {previousVStable : CausalContext}
    {m1 : List NodeId} {finalDots : HashMap NodeId Nat} {j : NodeId} (hj : j ∈ m1) (hne : j ≠ id)
    (hrow : j ∉ r.gc.matrixClock.getD ∅) :
    InitiateGc.afterFinalDots r n previousVStable m1 finalDots = (.releaseNoProgress n, r) := by
  have hempty : r.gc.computeStableTimestamp id m1 finalDots r.dvv.effectiveMap = (∅, ∅) := by
    refine (r.gc.computeStableTimestamp_cases id m1 finalDots _).resolve_right ?_
    rintro ⟨mc, vLive, hmc, hstable⟩
    obtain ⟨ctx, hctx, -⟩ := hstable.member j hj
    rw [if_neg hne] at hctx
    rw [hmc] at hrow
    exact hrow (AList.mem_of_lookup hctx)
  have hleq : vvLeq ∅ previousVStable = true :=
    vvLeq_iff.mpr fun k => by rw [counterAt_empty]; exact Nat.zero_le _
  rw [InitiateGc.afterFinalDots, hempty, if_pos hleq]

omit [DecidableEq E] in
theorem not_leftover {k : Core E id} {n : Nat} {previousVStable : CausalContext} {m1 : List NodeId}
    (hk : c.core id = some k) (htask : k.task = .initiateGc (.readFinalDots n previousVStable m1))
    (hguard : noLeftoverRow c (.resume id true) = true) {j : NodeId} {kj : Core E j}
    {pcj : NewReplicaBootstrap} (hkj : c.core j = some kj)
    (htaskj : kj.task = .newReplicaBootstrap pcj) (hj : j ∈ m1) :
    j ∉ k.replica.gc.matrixClock.getD ∅ := by
  have hboot : c.bootstrapping j = true := by
    rw [bootstrapping, task, hkj, Option.map_some, htaskj]
  rw [noLeftoverRow, hk] at hguard
  simp only [htask, List.all_eq_true] at hguard
  have := hguard j hj
  rw [hboot] at this
  simpa using this

section initiated

variable {k : Core E id} {pc : InitiateGc E} (h : BootInv c) (hepochs : EpochInv c')
  (hregistered : Registered c') (hframe : Undisturbed c c' id) (hi : Initiated c c' id k pc true)
include h hepochs hregistered hframe hi

omit [DecidableEq E] in
theorem BootInv.moved (hmono : c.epoch ≤ c'.epoch)
    (hstate : c'.stateEpoch ≤ c'.epoch ∨
      c'.stateEpoch = c'.epoch + 1 ∧ c'.epoch + 1 ∈ c'.storage.gcIntents)
    (hself : ∀ pc' n, (pc.resume true k.replica c.storage).1 = .await pc' → pc'.openEpoch = some n →
      (∀ m, pc' ≠ .writeEpochMetadata m) → c'.stateEpoch ≤ c'.epoch)
    (hsame : ∀ s m, (pc.resume true k.replica c.storage).1 = .await (.writeEpochState s m) →
      s.epoch = m.epoch)
    (hrest : ∀ x kx pcx n, x ≠ id → c.core x = some kx → kx.task = .initiateGc pcx →
      pcx.openEpoch = some n → c'.epoch = c.epoch ∧ c'.stateEpoch = c.stateEpoch)
    (hcalls : ∀ j kj pcj e pc' n, c.core j = some kj → kj.task = .newReplicaBootstrap pcj →
      (pc.resume true k.replica c.storage).1 = .await pc' → pc'.openEpoch = some n →
        (Unsettled c j e → n ≤ e + 1 ∨ pc'.ReckonsWith j) ∧ (Settled c j e → pc'.ReckonsWith j))
    (hstates : ∀ j e, (Unsettled c j e → c'.epoch ≤ e ∨ c'.stateEpoch ≤ c'.epoch) ∧
      (Settled c j e → c'.stateEpoch ≤ e)) : BootInv c' := by
  refine ⟨hepochs, hregistered, hstate, fun i ki pci n hki htaski hopen hne => ?_,
    fun i ki s m hki htaski => ?_, fun j kj pcj hkj htaskj => ?_⟩
  · by_cases hx : i = id
    · subst hx
      exact hself pci n (hi.await_of_task hki htaski) hopen hne
    · rw [hframe.others i hx] at hki
      obtain ⟨h1, h2⟩ := hrest i ki pci n hx hki htaski hopen
      rw [h1, h2]
      exact h.before_write i ki pci n hki htaski hopen hne
  · by_cases hx : i = id
    · subst hx
      exact hsame s m (hi.await_of_task hki htaski)
    · rw [hframe.others i hx] at hki
      exact h.same_epoch i ki s m hki htaski
  · have hj : j ≠ id := fun heq => by
      subst heq
      exact hi.not_bootstrap hkj pcj htaskj
    rw [hframe.others j hj] at hkj
    refine (h.waits j kj pcj hkj htaskj).mono (fun e hu => ?_) fun e hs => ?_
    · refine ⟨fun i ki pci n hki htaski hopen => ?_, Nat.le_trans hu.seen hmono, (hstates j e).1 hu⟩
      by_cases hx : i = id
      · subst hx
        exact (hcalls j kj pcj e pci n hkj htaskj (hi.await_of_task hki htaski) hopen).1 hu
      · rw [hframe.others i hx] at hki
        exact hu.calls i ki pci n hki htaski hopen
    · refine ⟨fun i ki pci n hki htaski hopen => ?_, (hstates j e).2 hs⟩
      by_cases hx : i = id
      · subst hx
        exact (hcalls j kj pcj e pci n hkj htaskj (hi.await_of_task hki htaski) hopen).2 hs
      · rw [hframe.others i hx] at hki
        exact hs.calls i ki pci n hki htaski hopen

omit [DecidableEq E] in
theorem BootInv.moved_quietly (hmeta : c'.storage.epochMetadata = c.storage.epochMetadata)
    (hstate : c'.storage.epochState = c.storage.epochState)
    (hintents : c.stateEpoch ≤ c.epoch ∨
      (c.epoch + 1 ∈ c.storage.gcIntents → c.epoch + 1 ∈ c'.storage.gcIntents))
    (hself : ∀ pc' n, (pc.resume true k.replica c.storage).1 = .await pc' → pc'.openEpoch = some n →
      c.stateEpoch ≤ c.epoch ∧ ∀ j kj pcj, c.core j = some kj → kj.task = .newReplicaBootstrap pcj →
        pc'.ReckonsWith j ∨ (pc.openEpoch = some n ∧ ¬ pc.ReckonsWith j))
    (hsame : ∀ s m, (pc.resume true k.replica c.storage).1 = .await (.writeEpochState s m) →
      s.epoch = m.epoch) : BootInv c' := by
  have hepoch : c'.epoch = c.epoch := by rw [epoch, epoch, Storage.readEpochMetadata, hmeta]; rfl
  have hstateEpoch : c'.stateEpoch = c.stateEpoch := by
    rw [stateEpoch, stateEpoch, Storage.readEpochState, hstate]; rfl
  refine h.moved hepochs hregistered hframe hi (Nat.le_of_eq hepoch.symm) ?_
    (fun pc' n hout hopen _ => ?_) hsame (fun _ _ _ _ _ _ _ _ => ⟨hepoch, hstateEpoch⟩)
    (fun j kj pcj e pc' n hkj htaskj hout hopen => ?_) fun j e => ?_
  · rw [hepoch, hstateEpoch]
    rcases h.state_le with hle | ⟨heq, hmem⟩
    · exact Or.inl hle
    · exact hintents.imp_right fun hkeep => ⟨heq, hkeep hmem⟩
  · rw [hepoch, hstateEpoch]
    exact (hself pc' n hout hopen).1
  · rcases (hself pc' n hout hopen).2 j kj pcj hkj htaskj with hreckon | ⟨hopen', hnot⟩
    · exact ⟨fun _ => Or.inr hreckon, fun _ => hreckon⟩
    · exact ⟨fun hu => Or.inl ((hu.calls id k pc n hi.before hi.task hopen').resolve_right hnot),
        fun hs => absurd (hs.calls id k pc n hi.before hi.task hopen') hnot⟩
  · rw [hepoch, hstateEpoch]
    exact ⟨Unsettled.state, Settled.state⟩

end initiated

section calls

variable {k : Core E id} (h : BootInv c) (hepochs : EpochInv c') (hregistered : Registered c')
  (hframe : Undisturbed c c' id)
include h hepochs hregistered hframe

omit [DecidableEq E] in
theorem BootInv.claimed {n : Nat} {previousVStable : CausalContext} {m0 : List NodeId}
    (hi : Initiated c c' id k (.claimGcIntent n previousVStable m0) true) : BootInv c' := by
  have hst := hi.storage
  rcases InitiateGc.resume_claim k.replica c.storage n previousVStable m0
    with ⟨-, result, heq⟩ | ⟨hn, heq⟩
  · rw [heq] at hst
    refine h.moved_quietly hepochs hregistered hframe hi (by rw [hst]) (by rw [hst])
      (Or.inr (by rw [hst]; exact fun h => h)) (fun pc' n hout => ?_) fun s m hout => ?_
    all_goals
      rw [heq] at hout
      cases hout
  · rw [heq] at hst
    have hopen' := hi.after
    rw [heq] at hopen'
    have hnext := hepochs.next id _ _ n hopen' rfl rfl
    have hepoch : c'.epoch = c.epoch := by rw [epoch, epoch, hst]; rfl
    have hle : c.stateEpoch ≤ c.epoch := h.state_le.resolve_right fun hahead =>
      hn (by rw [hnext, hepoch]; exact hahead.2)
    refine h.moved_quietly hepochs hregistered hframe hi (by rw [hst]) (by rw [hst]) (Or.inl hle)
      (fun pc' n' hout hopen => ?_) fun s m hout => ?_
    all_goals
      rw [heq] at hout
      cases hout
    exact ⟨hle, fun j kj pcj _ _ => Or.inl trivial⟩

omit [DecidableEq E] in
theorem BootInv.listed {n : Nat} {previousVStable : CausalContext} {m0 : List NodeId}
    (hi : Initiated c c' id k (.liveMembersAgain n previousVStable m0) true) : BootInv c' := by
  have hst := hi.storage
  have hle := h.before_write id k _ n hi.before hi.task rfl (by simp)
  have hagain := InitiateGc.resume_again k.replica c.storage n previousVStable m0
  have hsame : c'.storage = c.storage := by
    rcases hagain with heq | heq <;> rw [hst, heq]
  refine h.moved_quietly hepochs hregistered hframe hi (by rw [hsame]) (by rw [hsame])
    (Or.inl hle) (fun pc' n' hout hopen => ⟨hle, fun j kj pcj hkj htaskj => Or.inl ?_⟩)
      fun s m hout => ?_
  · have hlisted : j ∈ c.storage.liveMembers :=
      (c.storage.mem_liveMembers j).mpr (h.registered j kj pcj hkj htaskj).1
    rcases hagain with heq | heq
    · rw [heq] at hout
      cases hout
      trivial
    · rw [heq] at hout
      cases hout
      exact hlisted
  · rcases hagain with heq | heq <;> rw [heq] at hout <;> cases hout

omit [DecidableEq E] in
theorem BootInv.weighed {n : Nat} {previousVStable : CausalContext} {m1 : List NodeId}
    (hi : Initiated c c' id k (.readFinalDots n previousVStable m1) true)
    (hguard : noLeftoverRow c (.resume id true) = true) : BootInv c' := by
  -- a call that goes on to write has no listed replica that bootstraps
  have hst := hi.storage
  have hle := h.before_write id k _ n hi.before hi.task rfl (by simp)
  have hsame : c'.storage = c.storage := hst
  refine h.moved_quietly hepochs hregistered hframe hi (by rw [hsame]) (by rw [hsame])
    (Or.inl hle) (fun pc' n' hout hopen => ⟨hle, fun j kj pcj hkj htaskj => ?_⟩) fun s m hout => ?_
  · by_cases hj : j ∈ m1
    · -- `j` is listed and has no row: there is no progress
      have hne : j ≠ id := fun heq => by
        subst heq
        rw [hi.before] at hkj
        obtain rfl := Option.some.inj hkj
        rw [hi.task] at htaskj
        cases htaskj
      have hrow := not_leftover hi.before hi.task hguard hkj htaskj hj
      simp only [InitiateGc.resume, if_true, releases_without_row hj hne hrow,
        Progress.await.injEq] at hout
      subst hout
      exact Or.inl trivial
    · refine Or.inr ⟨?_, hj⟩
      simp only [InitiateGc.resume, if_true, InitiateGc.afterFinalDots, Progress.await.injEq]
        at hout
      subst hout
      split at hopen <;> exact hopen
  · simp only [InitiateGc.resume, if_true, InitiateGc.afterFinalDots, Progress.await.injEq] at hout
    split at hout
    · cases hout
    · cases hout
      rfl

omit [DecidableEq E] in
theorem BootInv.wroteState {epochState : EpochState E} {epochMetadata : EpochMetadata}
    (hi : Initiated c c' id k (.writeEpochState epochState epochMetadata) true) : BootInv c' := by
  have hst := hi.storage
  have hsame : c'.storage = c.storage.writeEpochState epochState := hst
  have hnext := h.epochs.next id k _ _ hi.before hi.task rfl
  have hheld := h.epochs.held hi.before hi.task rfl
  have hepoch : c'.epoch = c.epoch := by rw [epoch, epoch, hsame]; rfl
  have hstateEpoch : c'.stateEpoch = c.epoch + 1 := by
    rw [stateEpoch, hsame, Storage.readEpochState_write,
      h.same_epoch id k _ _ hi.before hi.task, hnext]
  refine h.moved hepochs hregistered hframe hi (Nat.le_of_eq hepoch.symm) (Or.inr ⟨?_, ?_⟩)
    (fun pc' n hout _ hne => ?_) (fun s m hout => ?_) (fun x kx pcx n hx hkx htaskx hopenx =>
      absurd (h.epochs.holder_unique hi.before hi.task rfl hkx htaskx hopenx) hx)
    (fun j kj pcj e pc' n hkj htaskj hout hopen => ?_) fun j e => ⟨fun hu => ?_, fun hs => ?_⟩
  · rw [hstateEpoch, hepoch]
  · rw [hepoch, hsame]
    rw [hnext] at hheld
    exact AList.mem_of_lookup hheld
  · simp only [InitiateGc.resume, if_true, Progress.await.injEq] at hout
    exact absurd hout.symm (hne epochMetadata)
  · simp only [InitiateGc.resume, if_true] at hout
    cases hout
  · simp only [InitiateGc.resume, if_true, Progress.await.injEq] at hout
    subst hout
    refine ⟨fun hu => Or.inl ?_, fun hs => (hs.calls id k _ n hi.before hi.task hopen).elim⟩
    exact (hu.calls id k _ n hi.before hi.task hopen).resolve_right fun hno => hno
  · have := (hu.calls id k _ _ hi.before hi.task rfl).resolve_right fun hno => hno
    omega
  · exact (hs.calls id k _ _ hi.before hi.task rfl).elim

omit [DecidableEq E] in
theorem BootInv.wroteMetadata {epochMetadata : EpochMetadata}
    (hi : Initiated c c' id k (.writeEpochMetadata epochMetadata) true) : BootInv c' := by
  have hst := hi.storage
  have hsame : c'.storage = c.storage.writeEpochMetadata epochMetadata := hst
  have hnext := h.epochs.next id k _ _ hi.before hi.task rfl
  have hepoch : c'.epoch = epochMetadata.epoch := by rw [epoch, hsame]; rfl
  have hstateEpoch : c'.stateEpoch = c.stateEpoch := by rw [stateEpoch, stateEpoch, hsame]; rfl
  have hle : c'.stateEpoch ≤ c'.epoch := by
    rw [hstateEpoch, hepoch, hnext]
    rcases h.state_le with hle | ⟨heq, -⟩
    · exact Nat.le_succ_of_le hle
    · exact Nat.le_of_eq heq
  refine h.moved hepochs hregistered hframe hi (by omega) (Or.inl hle) (fun _ _ _ _ _ => hle)
    (fun s m hout => ?_) (fun x kx pcx n hx hkx htaskx hopenx =>
      absurd (h.epochs.holder_unique hi.before hi.task rfl hkx htaskx hopenx) hx)
    (fun j kj pcj e pc' n hkj htaskj hout hopen => ?_) fun j e =>
      ⟨fun _ => Or.inr hle, fun hs => ?_⟩
  · simp only [InitiateGc.resume, if_true] at hout
    cases hout
  · simp only [InitiateGc.resume, if_true, Progress.await.injEq] at hout
    subst hout
    cases hopen
  · exact (hs.calls id k _ _ hi.before hi.task rfl).elim

omit [DecidableEq E] in
/-- **The step lemma for calls.** -/
theorem BootInv.initiated {pc : InitiateGc E} (hi : Initiated c c' id k pc true)
    (hguard : noLeftoverRow c (.resume id true) = true) : BootInv c' := by
  have hst := hi.storage
  cases pc with
  | readEpochMetadata | liveMembers =>
    have hsame : c'.storage = c.storage := hst
    refine h.moved_quietly hepochs hregistered hframe hi (by rw [hsame]) (by rw [hsame])
      (Or.inr (by rw [hsame]; exact fun hmem => hmem)) (fun pc' n hout hopen => ?_)
      fun s m hout => ?_
    all_goals
      simp only [InitiateGc.resume, if_true, Progress.await.injEq] at hout
      cases hout
    cases hopen
  | claimGcIntent n previousVStable m0 => exact h.claimed hepochs hregistered hframe hi
  | liveMembersAgain n previousVStable m0 => exact h.listed hepochs hregistered hframe hi
  | readFinalDots n previousVStable m1 => exact h.weighed hepochs hregistered hframe hi hguard
  | writeEpochState epochState epochMetadata => exact h.wroteState hepochs hregistered hframe hi
  | writeEpochMetadata epochMetadata => exact h.wroteMetadata hepochs hregistered hframe hi
  | releaseMembershipChange n | releaseNoProgress n =>
    have hle := h.before_write id k _ n hi.before hi.task rfl (by simp)
    have hsame : c'.storage = c.storage.releaseGcIntent n := hst
    refine h.moved_quietly hepochs hregistered hframe hi (by rw [hsame]; rfl) (by rw [hsame]; rfl)
      (Or.inl hle) (fun pc' n hout => ?_) fun s m hout => ?_
    all_goals
      simp only [InitiateGc.resume] at hout
      cases hout
  | releaseCommit n =>
    have hfinished := h.epochs.finished id k n hi.before hi.task
    have hsame : c'.storage = c.storage.releaseGcIntent n := hst
    refine h.moved_quietly hepochs hregistered hframe hi (by rw [hsame]; rfl) (by rw [hsame]; rfl)
      (Or.inr fun hmem => ?_) (fun pc' n hout => ?_) fun s m hout => ?_
    · rw [hsame]
      exact AList.mem_erase.mpr ⟨by omega, hmem⟩
    all_goals
      simp only [InitiateGc.resume] at hout
      cases hout

end calls

theorem BootInv.step {l : Label E} (h : BootInv c) (hok : JoinGuard c l)
    (hstep : c.step l = some c') :
    BootInv c' := by
  obtain ⟨⟨hsucceeds, hfresh⟩, hsettles, hrows⟩ := hok
  have hregistered := h.registered.step hstep
  rcases step_gc_cases hstep with hno | ⟨id, ok, rfl, hframe, ⟨k, pc, hb⟩ | ⟨k, pc, hi⟩⟩
  · exact h.noGcProgress hregistered hno
  · obtain rfl : ok = true := hsucceeds
    exact h.bootstrapped hregistered hframe hb hsettles
  · obtain rfl : ok = true := hsucceeds
    exact h.initiated (h.epochs.step rfl hfresh hstep).1 hregistered hframe hi hrows

/-- The epoch whose state `id` waits for at the end of its bootstrap. -/
def awaitedEpoch (c : Cluster E) (id : NodeId) : Option Nat :=
  match c.task id with
  | some (.newReplicaBootstrap (.readEpochState e)) => some e
  | _ => none

omit [DecidableEq E] in
theorem task_of_awaitedEpoch {e : Nat} (h : c.awaitedEpoch id = some e) :
    ∃ k, c.core id = some k ∧ k.task = .newReplicaBootstrap (.readEpochState e) := by
  rw [awaitedEpoch, task] at h
  cases hk : c.core id with
  | none => rw [hk] at h; cases h
  | some k =>
    rw [hk, Option.map_some] at h
    refine ⟨k, rfl, ?_⟩
    split at h
    · next htask =>
      rw [Option.some.inj htask, Option.some.inj h]
    · cases h

end Cluster

end ExperimentalCrdt
