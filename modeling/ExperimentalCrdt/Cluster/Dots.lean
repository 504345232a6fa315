import ExperimentalCrdt.Cluster.Epochs
import ExperimentalCrdt.Cluster.Knowledge

/-!
# Whose dots are unique

A dot is minted by counting on from the counter of the own vector. When a node departs, its counter
survives in the final dot it stores; when it comes back under the same id, nobody reads that. The
new vector starts from the last epoch state and learns the rest by merging, so a client operation
that is faster gets a dot that an earlier life has used (`rejoined_node_repeats_a_dot`).

In the runs of `DotsGuard` it is not: a node that goes has stored a final dot that covers its
counter, so the used dots of absent nodes lie below the final dots, and those of the others below
their counters (`Accounted`); a client operation waits until the counter has reached the final dots.
The guard asks for no more than that. Everything a vector, a message, the bucket or a final dot
counts has been given to some operation (`Backed`), so below a final dot the next dot is one of an
earlier life.
-/

namespace ExperimentalCrdt

open Transition (Reachable replay reachable_of_replay)

variable {E : Type} {id : NodeId}

/-! ## Counters never go back -/

section counters

variable (r : Replica E id)

theorem Replica.effectiveCounter_forgetNodes_le (obsolete : HashSet NodeId) (n : NodeId) :
    (r.forgetNodes obsolete).dvv.effectiveCounter n ≤ r.dvv.effectiveCounter n := by
  have hctx : counterAt (r.forgetNodes obsolete).dvv.context n ≤ counterAt r.dvv.context n := by
    rw [Replica.forgetNodes_context, counterAt_removeNodes]
    split
    · exact Nat.zero_le _
    · exact Nat.le_refl _
  simp only [DotVersionVector.effectiveCounter, Replica.forgetNodes_dot]
  split
  · omega
  · exact hctx

theorem resume_initiateGc_dvv (pc : InitiateGc E) (ok : Bool) (st : Storage E) :
    (pc.resume ok r st).2.1.dvv.dot = r.dvv.dot ∧
      ∀ n, (pc.resume ok r st).2.1.dvv.effectiveCounter n ≤ r.dvv.effectiveCounter n := by
  rcases Cluster.resume_replica_cases pc ok r st with
    ⟨n, previousVStable, m1, -, -, -, hr⟩ | ⟨hr | ⟨e, hr⟩, -⟩
  · rw [hr, InitiateGc.afterFinalDots]
    split
    · exact ⟨rfl, fun _ => Nat.le_refl _⟩
    · exact ⟨Replica.forgetNodes_dot _ _, r.effectiveCounter_forgetNodes_le _⟩
  · rw [hr]
    exact ⟨rfl, fun _ => Nat.le_refl _⟩
  · rw [hr]
    exact ⟨rfl, fun _ => Nat.le_refl _⟩

theorem resume_initiateGc_snapshot {pc : InitiateGc E} {ok : Bool} {st : Storage E}
    {s : EpochState E} {m : EpochMetadata}
    (hout : (pc.resume ok r st).1 = .await (.writeEpochState s m)) (n : NodeId) :
    counterAt s.initiatorClock n ≤ r.dvv.effectiveCounter n := by
  rcases Cluster.resume_replica_cases pc ok r st with
    ⟨e, previousVStable, m1, -, -, hpc, -⟩ | ⟨-, hnone⟩
  · rw [hpc, InitiateGc.afterFinalDots] at hout
    split at hout
    · cases hout
    · cases hout
      simp only [InitiateGc.prepareCommit, Replica.performGc_dvv,
        DotVersionVector.counterAt_effectiveMap]
      exact r.effectiveCounter_forgetNodes_le _ n
  · exact absurd hout (hnone s m)

variable [DecidableEq E]

theorem resume_bootstrap_dvv (pc : NewReplicaBootstrap) (ok : Bool) (st : Storage E) :
    r.dvv.dot.counter ≤ (pc.resume ok r st).2.dvv.dot.counter ∧
      ∀ n, (pc.resume ok r st).2.dvv.effectiveCounter n ≤
        max (r.dvv.effectiveCounter n) (counterAt st.readEpochState.initiatorClock n) := by
  rcases Cluster.bootstrap_replica_cases pc ok r st with hr | ⟨e, hr⟩
  · rw [hr]
    exact ⟨Nat.le_refl _, fun _ => Nat.le_max_left _ _⟩
  · rw [hr]
    refine ⟨DotVersionVector.dotCounter_le_merge _ _, fun n => ?_⟩
    simp only [NewReplicaBootstrap.adopt, Replica.setEpoch_dvv,
      DotVersionVector.effectiveCounter_merge,
      DotVersionVector.effectiveCounter_frontierDvv]
    exact Nat.le_refl _

end counters

namespace Cluster

/-! ## Every dot is accounted for -/

/-- The own counter of the replica has reached every final dot stored for its id. -/
def reachesFinalDots (c : Cluster E) (k : Core E id) : Bool :=
  c.storage.finalDots.all fun d => decide (d.1 = id → d.2 ≤ k.replica.dvv.dot.counter)

/-- A final dot is stored for `id` that covers the own counter of the replica. -/
def coveredByFinalDot (c : Cluster E) (k : Core E id) : Bool :=
  c.storage.finalDots.any fun d => decide (d.1 = id ∧ k.replica.dvv.dot.counter ≤ d.2)

/-- A client operation that is worked off now has a counter beyond the final dots. -/
def operatesCaughtUp (c : Cluster E) : Label E → Bool
  | .handle id _ =>
    match c.core id, c.nextRequest id with
    | some k, some (.clientOperation _) => c.reachesFinalDots k
    | _, _ => true
  | _ => true

/-- A server that goes now has stored a final dot that covers its counter. -/
def departsCovered (c : Cluster E) : Label E → Bool
  | .continueShutdown id _ =>
    match c.core id with
    | some k => decide (k.shutdown = .abort → c.coveredByFinalDot k = true)
    | none => true
  | _ => true

/-- The guard of the runs in which dots are unique. -/
def DotsGuard (c : Cluster E) (l : Label E) : Prop :=
  departsCovered c l = true ∧ operatesCaughtUp c l = true

instance (c : Cluster E) (l : Label E) : Decidable (DotsGuard c l) :=
  inferInstanceAs (Decidable (_ ∧ _))

theorem reachesFinalDots_iff {c : Cluster E} {k : Core E id} :
    c.reachesFinalDots k = true ↔ ∀ f, (id, f) ∈ c.storage.finalDots →
    f ≤ k.replica.dvv.dot.counter := by
  simp only [reachesFinalDots, List.all_eq_true, decide_eq_true_eq]
  constructor
  · exact fun h f hf => h (id, f) hf rfl
  · rintro h ⟨n, f⟩ hf rfl
    exact h f hf

theorem coveredByFinalDot_iff {c : Cluster E} {k : Core E id} :
    c.coveredByFinalDot k = true ↔ ∃ f, (id, f) ∈ c.storage.finalDots ∧
    k.replica.dvv.dot.counter ≤ f := by
  simp only [coveredByFinalDot, List.any_eq_true, decide_eq_true_eq]
  constructor
  · rintro ⟨⟨n, f⟩, hf, rfl, hle⟩
    exact ⟨f, hf, hle⟩
  · rintro ⟨f, hf, hle⟩
    exact ⟨(id, f), hf, rfl, hle⟩

/-- A used dot lies below a final dot of its node, or below the counter of the node. -/
def Accounted (c : Cluster E) (d : Dot) : Prop :=
  (∃ f, (d.nodeId, f) ∈ c.storage.finalDots ∧ d.counter ≤ f) ∨
    ∃ k, c.core d.nodeId = some k ∧ d.counter ≤ k.replica.dvv.dot.counter

structure DotsInv (c : Cluster E) : Prop where
  accounted : ∀ p ∈ c.history, c.Accounted p.dot
  nodup : (c.history.map (·.dot)).Nodup

/-- No final dot is lost, and who is there either stays with its counter or leaves a final dot. -/
structure Counts (c c' : Cluster E) : Prop where
  finalDots : ∀ d ∈ c.storage.finalDots, d ∈ c'.storage.finalDots
  cores : ∀ x k, c.core x = some k →
    (∃ k', c'.core x = some k' ∧ k.replica.dvv.dot.counter ≤ k'.replica.dvv.dot.counter) ∨
      c.coveredByFinalDot k = true

variable {c c' : Cluster E}

theorem Accounted.carry {d : Dot} (h : c.Accounted d) (hcounts : Counts c c') : c'.Accounted d := by
  rcases h with ⟨f, hf, hle⟩ | ⟨k, hk, hle⟩
  · exact Or.inl ⟨f, hcounts.finalDots _ hf, hle⟩
  · rcases hcounts.cores d.nodeId k hk with ⟨k', hk', hle'⟩ | hcovered
    · exact Or.inr ⟨k', hk', Nat.le_trans hle hle'⟩
    · obtain ⟨f, hf, hle'⟩ := coveredByFinalDot_iff.mp hcovered
      exact Or.inl ⟨f, hcounts.finalDots _ hf, Nat.le_trans hle hle'⟩

/-- The server stays and its counter does not fall, or this step is the last of its shutdown. -/
def Stays (l : Label E) (c' : Cluster E) (k : Core E id) : Prop :=
  (∃ k', c'.core id = some k' ∧ k.replica.dvv.dot.counter ≤ k'.replica.dvv.dot.counter) ∨
    ∃ ok, l = .continueShutdown id ok ∧ k.shutdown = .abort ∧ c'.core id = none

variable [DecidableEq E]

/-- **Every step keeps count**: no final dot is lost, no counter falls, and only a server that has
come to the end of its shutdown goes. -/
theorem step_stays {l : Label E} (hstep : c.step l = some c') :
    (∀ d ∈ c.storage.finalDots, d ∈ c'.storage.finalDots) ∧
      ∀ x (k : Core E x), c.core x = some k → Stays l c' k := by
  constructor
  · intro d hd
    rcases step_finalDots hstep with hsame | ⟨x, k, f, -, -, -, hst⟩
    · exact hsame ▸ hd
    · rw [hst]
      exact List.mem_insert_of_mem hd
  intro x k hk
  cases step_core hstep x with
  | same hsame => exact Or.inl ⟨k, hsame.trans hk, Nat.le_refl _⟩
  | @handled choice s req hh =>
    obtain rfl := Option.some.inj (hk.symm.trans hh.before)
    exact Or.inl ⟨_, hh.after, s.dotCounter_le_handle c.storage.readEpochMetadata choice req⟩
  | bootstrapped hb =>
    obtain rfl := Option.some.inj (hk.symm.trans hb.before)
    exact Or.inl ⟨_, hb.after, (resume_bootstrap_dvv _ _ _ c.storage).1⟩
  | initiated hi =>
    obtain rfl := Option.some.inj (hk.symm.trans hi.before)
    exact Or.inl ⟨_, hi.after, by rw [(resume_initiateGc_dvv _ _ _ c.storage).1]⟩
  | started hnone =>
    rw [hnone] at hk
    cases hk
  | shutdown hbefore hafter =>
    obtain rfl := Option.some.inj (hk.symm.trans hbefore)
    exact Or.inl ⟨_, hafter, Nat.le_refl _⟩
  | gone hbefore hend hafter =>
    obtain rfl := Option.some.inj (hk.symm.trans hbefore)
    exact Or.inr ⟨_, rfl, hend, hafter⟩

theorem step_counts {l : Label E} (hl : departsCovered c l = true) (hstep : c.step l = some c') :
    Counts c c' := by
  obtain ⟨hdots, hstays⟩ := step_stays hstep
  refine ⟨hdots, fun x k hk => (hstays x k hk).imp_right ?_⟩
  rintro ⟨ok, rfl, habort, -⟩
  rw [departsCovered, hk] at hl
  exact of_decide_eq_true hl habort

theorem step_history {l : Label E} (hstep : c.step l = some c') :
    c'.history = c.history ∨ ∃ id choice s op, l = .handle id choice ∧
      Handled c c' id choice s (.clientOperation op) := by
  cases l with
  | request | receive | duplicate | drop | connect | disconnect =>
    have hq : Quiet _ c c' := step_quiet (by exact trivial) hstep
    exact Or.inl hq.history
  | handle id choice =>
    obtain ⟨s, req, hh⟩ := step_handle hstep
    cases req with
    | clientOperation op => exact Or.inr ⟨id, choice, s, op, rfl, hh⟩
    | _ => exact Or.inl (hh.history.trans (List.append_nil _))
  | resume id ok => exact Or.inl (step_resume hstep).1.history
  | start id gcReplica => exact Or.inl (step_start hstep).1.history
  | heartbeat id =>
    obtain ⟨-, rfl⟩ := step_heartbeat hstep
    exact Or.inl rfl
  | beginShutdown id => exact Or.inl (step_beginShutdown hstep).1.history
  | continueShutdown id ok => exact Or.inl (step_continueShutdown hstep).1.history

section operation

variable {choice : Option NodeId} {s : Server E id} {op : OrSetOp E}

omit [DecidableEq E] in
theorem nextDot_eq (s : Server E id) :
    s.engine.nextDot = ⟨id, s.engine.replica.dvv.dot.counter + 1⟩ := by
  have hdot : s.engine.nextDot =
      ⟨s.engine.replica.dvv.dot.nodeId, s.engine.replica.dvv.dot.counter + 1⟩ := rfl
  rw [hdot, s.engine.replica.dvv_owner]

omit [DecidableEq E] in
theorem DotsInv.fresh (h : DotsInv c) (hcaught : c.reachesFinalDots s.core = true)
    (hcore : c.core id = some s.core) : s.engine.nextDot ∉ c.history.map (·.dot) := by
  -- a counter that has reached the final dots counts on to a dot that nobody has been given
  intro hmem
  obtain ⟨p, hp, hdot⟩ := List.mem_map.mp hmem
  have hacc := h.accounted p hp
  rw [hdot, nextDot_eq] at hacc
  rcases hacc with ⟨f, hf, hle⟩ | ⟨k, hk, hle⟩
  · have hreach := reachesFinalDots_iff.mp hcaught f hf
    have hle : s.engine.replica.dvv.dot.counter + 1 ≤ f := hle
    have hreach : f ≤ s.engine.replica.dvv.dot.counter := hreach
    omega
  · rw [hcore] at hk
    obtain rfl := Option.some.inj hk
    have hle : s.engine.replica.dvv.dot.counter + 1 ≤ s.engine.replica.dvv.dot.counter := hle
    omega

theorem nodup_performed (hh : Handled c c' id choice s (.clientOperation op)) :
    (c'.history.map (·.dot)).Nodup ↔
      (c.history.map (·.dot)).Nodup ∧ s.engine.nextDot ∉ c.history.map (·.dot) := by
  have hmap : c'.history.map (·.dot) = c.history.map (·.dot) ++ [s.engine.nextDot] := by
    rw [hh.history, List.map_append]
    rfl
  rw [hmap, List.nodup_append]
  constructor
  · rintro ⟨hnodup, -, hne⟩
    exact ⟨hnodup, fun hmem => hne _ hmem _ (List.mem_singleton_self _) rfl⟩
  · rintro ⟨hnodup, hfresh⟩
    refine ⟨hnodup, List.nodup_singleton _, fun a ha b hb heq => hfresh ?_⟩
    rw [List.mem_singleton] at hb
    rw [← hb, ← heq]
    exact ha

end operation

/-- **The step lemma.** -/
theorem DotsInv.step {l : Label E} (h : DotsInv c) (hl : DotsGuard c l)
    (hstep : c.step l = some c') :
    DotsInv c' := by
  have hcounts := step_counts hl.1 hstep
  rcases step_history hstep with hhistory | ⟨id, choice, s, op, rfl, hh⟩
  · refine ⟨fun p hp => ?_, by rw [hhistory]; exact h.nodup⟩
    rw [hhistory] at hp
    exact (h.accounted p hp).carry hcounts
  · have hcaught : c.reachesFinalDots s.core = true := by
      have hguard := hl.2
      rwa [operatesCaughtUp, hh.before, hh.next] at hguard
    refine ⟨fun p hp => ?_, (nodup_performed hh).mpr ⟨h.nodup, h.fresh hcaught hh.before⟩⟩
    rw [hh.history] at hp
    rcases List.mem_append.mp hp with hp | hp
    · exact (h.accounted p hp).carry hcounts
    · obtain rfl := List.mem_singleton.mp hp
      -- the performer's counter is that of its new dot
      refine Or.inr ?_
      dsimp only
      rw [nextDot_eq]
      exact ⟨_, hh.after, Nat.le_refl _⟩

/-! ## Nothing is counted that was not given -/

/-- The dots of `n` up to the counter `m` have been given to client operations. -/
def Given (c : Cluster E) (n : NodeId) (m : Nat) : Prop :=
  ∀ j, 0 < j → j ≤ m → ⟨n, j⟩ ∈ c.history.map (·.dot)

/-- A vector counts given dots only. -/
def Backs (c : Cluster E) (dvv : DotVersionVector) : Prop := ∀ n, c.Given n (dvv.effectiveCounter n)

structure BackedCore (c : Cluster E) (k : Core E id) : Prop where
  vector : c.Backs k.replica.dvv
  answer : ∀ f, k.shutdown = .putFinalDot f → c.Given id f
  snapshot : ∀ s m, k.task = .initiateGc (.writeEpochState s m) →
    ∀ n, c.Given n (counterAt s.initiatorClock n)

structure Backed (c : Cluster E) : Prop where
  cores : ∀ x k, c.core x = some k → c.BackedCore k
  stored : ∀ n, c.Given n (counterAt c.storage.readEpochState.initiatorClock n)
  finalDots : ∀ d ∈ c.storage.finalDots, c.Given d.1 d.2
  pending : ∀ dst fromNode crdtId delta km,
    c.Pending dst (.deltaResponse fromNode crdtId delta km) →
    c.Backs delta.causalContext

section backed

omit [DecidableEq E]

theorem Given.mono {n : NodeId} {m m' : Nat} (h : c.Given n m) (hle : m' ≤ m) : c.Given n m' :=
  fun j hpos hj => h j hpos (Nat.le_trans hj hle)

theorem Given.max {n : NodeId} {m m' : Nat} (h : c.Given n m) (h' : c.Given n m') :
    c.Given n (max m m') :=
  fun j hpos hj => by
    rcases Nat.le_total m m' with hle | hle
    · rw [Nat.max_eq_right hle] at hj
      exact h' j hpos hj
    · rw [Nat.max_eq_left hle] at hj
      exact h j hpos hj

variable (hhistory : ∀ p ∈ c.history, p ∈ c'.history)
include hhistory

theorem Given.grow {n : NodeId} {m : Nat} (h : c.Given n m) : c'.Given n m := fun j hpos hj => by
  obtain ⟨p, hp, hdot⟩ := List.mem_map.mp (h j hpos hj)
  exact List.mem_map.mpr ⟨p, hhistory p hp, hdot⟩

theorem Backed.of_step (h : Backed c) (hothers : ∀ x, x ≠ id → c'.core x = c.core x)
    (hself : ∀ k', c'.core id = some k' → c'.BackedCore k')
    (hstored : ∀ n, c'.Given n (counterAt c'.storage.readEpochState.initiatorClock n))
    (hdots : ∀ d ∈ c'.storage.finalDots, d ∈ c.storage.finalDots ∨ c'.Given d.1 d.2)
    (hpending : ∀ dst fromNode crdtId delta km,
      c'.Pending dst (.deltaResponse fromNode crdtId delta km) →
      c.Pending dst (.deltaResponse fromNode crdtId delta km) ∨ c'.Backs delta.causalContext) :
      Backed c' := by
  refine ⟨fun x k hk => ?_, hstored, fun d hd => ?_, fun dst fromNode crdtId delta km hreq => ?_⟩
  · by_cases hx : x = id
    · subst hx
      exact hself k hk
    · rw [hothers x hx] at hk
      have hcore := h.cores x k hk
      exact ⟨fun n => (hcore.vector n).grow hhistory, fun f hf => (hcore.answer f hf).grow hhistory,
        fun s m htask n => (hcore.snapshot s m htask n).grow hhistory⟩
  · rcases hdots d hd with hold | hnew
    · exact (h.finalDots d hold).grow hhistory
    · exact hnew
  · rcases hpending dst fromNode crdtId delta km hreq with hold | hnew
    · exact fun n => (h.pending dst fromNode crdtId delta km hold n).grow hhistory
    · exact hnew

end backed

theorem Backed.vector_handled (h : Backed c) {choice : Option NodeId} {s : Server E id}
    {req : CrdtEngineRequest E} (hh : Handled c c' id choice s req) :
    c'.Backs (s.handle c.storage.readEpochMetadata choice req).1.core.replica.dvv := by
  have hhistory : ∀ p ∈ c.history, p ∈ c'.history := fun p hp => by
    rw [hh.history]
    exact List.mem_append_left _ hp
  have hold : ∀ n, c'.Given n (s.engine.replica.dvv.effectiveCounter n) := fun n =>
    ((h.cores id _ hh.before).vector n).grow hhistory
  intro n
  rcases s.handle_replica_cases c.storage.readEpochMetadata choice req
    with ⟨hr, -⟩ | ⟨op, rfl, hr⟩ |
    ⟨from_, crdtId, K, -, hr⟩ | ⟨from_, crdtId, payload, km, rfl, hr⟩ | ⟨-, hr⟩
  · rw [hr]
    exact hold n
  · rw [hr]
    simp only [CrdtEngine.clientOperation, DotVersionVector.effectiveCounter_event]
    split
    · next hn =>
      subst hn
      -- the new dot is the one that was just given
      refine (hold _).max fun j hpos hj => ?_
      rcases Nat.lt_or_eq_of_le hj with hlt | rfl
      · exact hold _ j hpos (Nat.le_trans (Nat.le_of_lt_succ hlt)
          s.engine.replica.dvv.dotCounter_le_effectiveCounter)
      · rw [hh.history]
        exact List.mem_map.mpr ⟨_, List.mem_append_right _ (List.mem_singleton_self _), rfl⟩
    · exact hold n
  · rw [hr]
    exact hold n
  · rw [hr]
    have hdvv : (km.elim s.engine s.engine.learnMatrix).replica.dvv = s.engine.replica.dvv := by
      cases km <;> rfl
    simp only [CrdtEngine.mergeDelta, DotVersionVector.effectiveCounter_merge, hdvv]
    exact (hold n).max ((h.pending id _ _ _ _ hh.taken n).grow hhistory)
  · rw [hr, Replica.observeEpochChange]
    split
    · exact hold n
    · exact (hold n).mono (Replica.effectiveCounter_forgetNodes_le _ _ n)

theorem Backed.handled (h : Backed c) {choice : Option NodeId} {s : Server E id}
    {req : CrdtEngineRequest E} (hh : Handled c c' id choice s req) : Backed c' := by
  have hhistory : ∀ p ∈ c.history, p ∈ c'.history := fun p hp => by
    rw [hh.history]
    exact List.mem_append_left _ hp
  have hcore := h.cores id _ hh.before
  refine h.of_step hhistory hh.others (fun k' hk' => ?_) (fun n => ?_)
    (fun d hd => Or.inl (hh.storage ▸ hd))
    fun dst fromNode crdtId delta km hreq => ?_
  · have hafter := hk'
    rw [hh.after] at hk'
    obtain rfl := Option.some.inj hk'
    refine ⟨h.vector_handled hh, fun f hf => ?_, fun s' m htask => ?_⟩
    · -- the answer to the server is the counter of the dot
      cases req with
      | deregistrationState =>
        obtain rfl := Shutdown.putFinalDot.inj hf
        refine (hcore.vector id |>.mono ?_).grow hhistory
        have hle := s.engine.replica.dvv.dotCounter_le_effectiveCounter
        rw [s.engine.replica.dvv_owner] at hle
        exact hle
      | _ => exact (hcore.answer f hf).grow hhistory
    · cases (hh.initiateGc_of_task hafter htask).2
  · rw [hh.storage]
    exact (h.stored n).grow hhistory
  · refine (hh.pending dst _ hreq).imp_right ?_
    rintro ⟨envelope, hsent, hr⟩
    rcases s.sent_cases c.storage.readEpochMetadata choice req hsent hr with
      ⟨crdtId, heq⟩ | ⟨crdtId, K, km, -, heq, -⟩
    · cases heq
    · cases heq
      intro n
      rw [OrSet.effectiveCounter_causalContext]
      exact (hcore.vector n).grow hhistory

omit [DecidableEq E] in
theorem backedCore_new (gcReplica : Bool) {task : EngineTask E}
    (htask : ∀ pc, task ≠ .initiateGc pc) :
    c.BackedCore (⟨.new gcReplica, task, .running⟩ : Core E id) := by
  have hzero : ∀ n, (Replica.new gcReplica : Replica E id).dvv.effectiveCounter n = 0 := fun n =>
    DotVersionVector.effectiveCounter_new n id
  refine ⟨fun n j hpos hj => ?_, fun f hf => ?_, fun s m h => absurd h (htask _)⟩
  · rw [hzero] at hj
    omega
  · cases hf

omit [DecidableEq E] in
theorem BackedCore.phase {k : Core E id} (h : c.BackedCore k) (hhistory : c'.history = c.history)
    {phase : Shutdown} (hphase : ∀ f, phase ≠ .putFinalDot f) :
    c'.BackedCore { k with shutdown := phase } := by
  have hgrow : ∀ p ∈ c.history, p ∈ c'.history := fun p hp => hhistory ▸ hp
  exact ⟨fun n => (h.vector n).grow hgrow, fun f hf => absurd hf (hphase f),
    fun s m htask n => (h.snapshot s m htask n).grow hgrow⟩

omit [DecidableEq E] in
theorem Backed.same (h : Backed c) (hcore : ∀ x, c'.core x = c.core x)
    (hhistory : c'.history = c.history) (hstate : c'.storage.epochState = c.storage.epochState)
    (hdots : c'.storage.finalDots = c.storage.finalDots)
    (hpending : ∀ dst r, c'.Pending dst r → c.Pending dst r ∨ Local r) : Backed c' := by
  have hgrow : ∀ p ∈ c.history, p ∈ c'.history := fun p hp => hhistory ▸ hp
  refine ⟨fun x k hk => ?_, fun n => ?_, fun d hd => ?_,
    fun dst fromNode crdtId delta km hreq n => ?_⟩
  · rw [hcore] at hk
    have hback := h.cores x k hk
    exact ⟨fun n => (hback.vector n).grow hgrow, fun f hf => (hback.answer f hf).grow hgrow,
      fun s m htask n => (hback.snapshot s m htask n).grow hgrow⟩
  · rw [Storage.readEpochState, hstate]
    exact (h.stored n).grow hgrow
  · rw [hdots] at hd
    exact (h.finalDots d hd).grow hgrow
  · exact (h.pending dst fromNode crdtId delta km
      ((hpending dst _ hreq).resolve_right fun hlocal => hlocal) n).grow hgrow

theorem Backed.resumed (h : Backed c) {ok : Bool} (hstep : c.step (.resume id ok) = some c') :
    Backed c' := by
  -- a bootstrap merges the stored clock, and a call publishes what its replica counted
  obtain ⟨hframe, hcase⟩ := step_resume hstep
  have hgrow : ∀ p ∈ c.history, p ∈ c'.history := fun p hp => by
    rw [hframe.history]
    exact hp
  have hpending : ∀ dst fromNode crdtId delta km,
      c'.Pending dst (.deltaResponse fromNode crdtId delta km) →
      c.Pending dst (.deltaResponse fromNode crdtId delta km) ∨ c'.Backs delta.causalContext :=
    fun dst fromNode crdtId delta km hreq =>
      Or.inl ((hframe.pending dst _ hreq).resolve_right fun hlocal => hlocal)
  rcases hcase with ⟨k, pc, hb⟩ | ⟨k, pc, hi⟩
  · have hcore := h.cores id k hb.before
    refine h.of_step hgrow hframe.others (fun k' hk' => ?_) (fun n => ?_)
      (fun d hd => Or.inl (hb.storage ▸ hd)) hpending
    · refine ⟨fun n => ?_, fun f hf => ?_, fun s m htask => absurd htask (hb.not_initiateGc hk' _)⟩
      all_goals
        rw [hb.after] at hk'
        obtain rfl := Option.some.inj hk'
      · exact (((hcore.vector n).max (h.stored n)).mono
          ((resume_bootstrap_dvv k.replica pc ok c.storage).2 n)).grow hgrow
      · exact (hcore.answer f hf).grow hgrow
    · rw [hb.storage]
      exact (h.stored n).grow hgrow
  · have hcore := h.cores id k hi.before
    have hkeeps := resume_keeps pc ok k.replica c.storage
    refine h.of_step hgrow hframe.others (fun k' hk' => ?_) (fun n => ?_)
      (fun d hd => Or.inl ?_) hpending
    · refine ⟨fun n => ?_, fun f hf => ?_, fun s m htask n => ?_⟩
      · rw [hi.after] at hk'
        obtain rfl := Option.some.inj hk'
        exact ((hcore.vector n).mono ((resume_initiateGc_dvv k.replica pc ok c.storage).2 n)).grow
          hgrow
      · rw [hi.after] at hk'
        obtain rfl := Option.some.inj hk'
        exact (hcore.answer f hf).grow hgrow
      · have hle := resume_initiateGc_snapshot k.replica (hi.await_of_task hk' htask) n
        exact ((hcore.vector n).mono hle).grow hgrow
    · rw [hi.storage]
      rcases resume_epochState pc ok k.replica c.storage with heq | ⟨m, hpc⟩
      · rw [heq]
        exact (h.stored n).grow hgrow
      · exact (hcore.snapshot _ m (hi.task.trans (congrArg _ hpc)) n).grow hgrow
    · rw [hi.storage, hkeeps.2] at hd
      exact hd

/-- **The step lemma**: every step keeps to given dots, with no assumption on the run. -/
theorem Backed.step {l : Label E} (h : Backed c) (hstep : c.step l = some c') : Backed c' := by
  cases l with
  | request | receive | duplicate | drop | connect | disconnect =>
    have hq : Quiet _ c c' := step_quiet (by exact trivial) hstep
    exact h.same hq.core hq.history (by rw [hq.storage]) (by rw [hq.storage])
      fun dst r hr => (hq.pending dst r hr).imp_right local_of_puts
  | handle id choice =>
    obtain ⟨s, req, hh⟩ := step_handle hstep
    exact h.handled hh
  | resume id ok => exact h.resumed hstep
  | start id gcReplica =>
    obtain ⟨hframe, hnone, hafter, hst, -⟩ := step_start hstep
    have hgrow : ∀ p ∈ c.history, p ∈ c'.history := fun p hp => hframe.history ▸ hp
    refine h.of_step hgrow hframe.others (fun k' hk' => ?_) (fun n => ?_) (fun d hd => Or.inl ?_)
      fun dst fromNode crdtId delta km hreq =>
        Or.inl ((hframe.pending dst _ hreq).resolve_right fun hlocal => hlocal)
    · rw [hafter] at hk'
      obtain rfl := Option.some.inj hk'
      exact backedCore_new gcReplica (by simp)
    · rw [hst, Storage.readEpochState, Storage.register_epochState]
      exact (h.stored n).grow hgrow
    · rw [hst, Storage.register_finalDots] at hd
      exact hd
  | heartbeat id =>
    obtain ⟨-, rfl⟩ := step_heartbeat hstep
    exact h.same (fun _ => rfl) rfl (Storage.register_epochState _ _)
      (Storage.register_finalDots _ _)
      fun dst r hr => Or.inl hr
  | beginShutdown id =>
    obtain ⟨hframe, hst, -, k, hk, -, hafter⟩ := step_beginShutdown hstep
    have hgrow : ∀ p ∈ c.history, p ∈ c'.history := fun p hp => hframe.history ▸ hp
    refine h.of_step hgrow hframe.others (fun k' hk' => ?_) (fun n => ?_)
      (fun d hd => Or.inl (hst ▸ hd))
      fun dst fromNode crdtId delta km hreq =>
        Or.inl ((hframe.pending dst _ hreq).resolve_right fun hlocal => hlocal)
    · rw [hafter] at hk'
      obtain rfl := Option.some.inj hk'
      exact (h.cores id k hk).phase hframe.history fun f hf => by cases hf
    · rw [hst]
      exact (h.stored n).grow hgrow
  | continueShutdown id ok =>
    obtain ⟨hframe, -, k, hk, hcase⟩ := step_continueShutdown hstep
    have hgrow : ∀ p ∈ c.history, p ∈ c'.history := fun p hp => hframe.history ▸ hp
    have hphase : ∀ phase, (∀ f, phase ≠ Shutdown.putFinalDot f) →
        c'.core id = some { k with shutdown := phase } → ∀ k', c'.core id = some k' →
            c'.BackedCore k' :=
      fun phase hne hafter k' hk' => by
        rw [hafter] at hk'
        obtain rfl := Option.some.inj hk'
        exact (h.cores id k hk).phase hframe.history hne
    have hpending : ∀ dst fromNode crdtId delta km,
        c'.Pending dst (.deltaResponse fromNode crdtId delta km) →
        c.Pending dst (.deltaResponse fromNode crdtId delta km) ∨ c'.Backs delta.causalContext :=
      fun dst fromNode crdtId delta km hreq =>
        Or.inl ((hframe.pending dst _ hreq).resolve_right fun hlocal => hlocal)
    have hstored : c'.storage.epochState = c.storage.epochState →
        ∀ n, c'.Given n (counterAt c'.storage.readEpochState.initiatorClock n) := fun heq n => by
      rw [Storage.readEpochState, heq]
      exact (h.stored n).grow hgrow
    rcases hcase with ⟨finalDot, hput, hcase⟩ | ⟨-, hafter, hst⟩ | ⟨-, hafter, hst⟩
    · split at hcase
      · obtain ⟨hafter, hst⟩ := hcase
        refine h.of_step hgrow hframe.others (hphase _ (by simp) hafter)
          (hstored (by rw [hst]; rfl))
          (fun d hd => ?_) hpending
        rw [hst] at hd
        -- what is put is what the engine answered
        rcases List.mem_insert_iff.mp hd with rfl | hd
        · exact Or.inr (((h.cores id k hk).answer finalDot hput).grow hgrow)
        · exact Or.inl hd
      · obtain ⟨hafter, hst⟩ := hcase
        exact h.of_step hgrow hframe.others (hphase _ (by simp) hafter) (hstored (by rw [hst]))
          (fun d hd => Or.inl (hst ▸ hd)) hpending
    · refine h.of_step hgrow hframe.others (hphase _ (by simp) hafter) (hstored ?_)
        (fun d hd => Or.inl ?_)
        hpending
      · rw [hst]
        split <;> rfl
      · rw [hst] at hd
        split at hd <;> exact hd
    · refine h.of_step hgrow hframe.others (fun k' hk' => ?_) (hstored (by rw [hst]))
        (fun d hd => Or.inl (hst ▸ hd)) hpending
      rw [hafter] at hk'
      cases hk'

omit [DecidableEq E] in
/-- **Below a stored final dot, the next dot is one that was given before.** -/
theorem Backed.reused (h : Backed c) {s : Server E id}
    (hbelow : c.reachesFinalDots s.core = false) :
    s.engine.nextDot ∈ c.history.map (·.dot) := by
  have hnot : ¬ ∀ f, (id, f) ∈ c.storage.finalDots → f ≤ s.core.replica.dvv.dot.counter :=
      fun hall => by
    rw [reachesFinalDots_iff.mpr hall] at hbelow
    cases hbelow
  push Not at hnot
  obtain ⟨f, hf, hlt⟩ := hnot
  rw [nextDot_eq]
  exact h.finalDots (id, f) hf _ (Nat.succ_pos _) hlt

/-! ## Runs -/

omit [DecidableEq E] in
theorem backed_fixed (members : HashMap NodeId Bool) : Backed (fixed members : Cluster E) := by
  refine ⟨fun x k hk => ?_, fun n j hpos hj => ?_, fun d hd => (List.not_mem_nil hd).elim,
    fun dst fromNode crdtId delta km hreq => absurd hreq (not_pending_fixed members dst _)⟩
  · obtain ⟨gcReplica, -, rfl⟩ := core_fixed_cases hk
    exact backedCore_new gcReplica (by simp)
  · have hzero : counterAt (fixed members : Cluster E).storage.readEpochState.initiatorClock n =
        0 :=
      counterAt_empty n
    omega

/-- **Dots are unique, for runs that wait for their final dots**: in every run in which whoever goes
has a final dot that covers its counter, and whoever operates has reached its final dots, no dot is
given twice; and the next client operation is given a new dot exactly if its replica has reached
them. -/
theorem dots_unique (members : HashMap NodeId Bool) (c : Cluster E)
    (h : Reachable Cluster.step DotsGuard (fixed members) c) :
    (c.history.map (·.dot)).Nodup ∧
      ∀ id k op choice c', c.core id = some k → c.nextRequest id = some (.clientOperation op) →
        c.step (.handle id choice) = some c' →
          ((c'.history.map (·.dot)).Nodup ↔ c.reachesFinalDots k = true) := by
  have hinit : DotsInv (fixed members : Cluster E) :=
    ⟨fun p hp => (List.not_mem_nil hp).elim, List.nodup_nil⟩
  have hinv : DotsInv c := h.invariant hinit fun s l s' _ hs hok hstep => hs.step hok hstep
  have hbacked : Backed c :=
    h.invariant (backed_fixed members) fun s l s' _ hs _ hstep => hs.step hstep
  refine ⟨hinv.nodup, fun id k op choice c' hk hnext hstep => ?_⟩
  obtain ⟨s, req, hh⟩ := step_handle hstep
  rw [hh.before] at hk
  obtain rfl := Option.some.inj hk
  rw [hh.next] at hnext
  obtain rfl := Option.some.inj hnext
  rw [nodup_performed hh]
  constructor
  · rintro ⟨-, hfresh⟩
    by_contra hbelow
    exact hfresh (hbacked.reused (Bool.not_eq_true _ ▸ hbelow))
  · exact fun hcaught => ⟨hinv.nodup, hinv.fresh hcaught hh.before⟩

/-- `id` departs, call by call, and nothing fails. -/
def depart (id : NodeId) : List (Label String) :=
  [.beginShutdown id, .handle id none] ++ List.replicate 3 (.continueShutdown id true)

/-- `id` comes back and completes its bootstrap. -/
def rejoin (id : NodeId) (gcReplica : Bool) : List (Label String) :=
  .start id gcReplica :: List.replicate 3 (.resume id true)

/-- `id` adds `x`. -/
def operate (id : NodeId) : List (Label String) :=
  [.request id (.clientOperation (.add "x")), .handle id none]

/-- `G` has an event, commits an epoch, departs, and comes back: it adopts its old counter from the
epoch state and goes on with a new dot. -/
theorem dots_unique_rejoin :
    ∃ c, replay Cluster.step DotsGuard gcPair
        (gossip ++ initiate "G" 8 ++ depart "G" ++ rejoin "G" true ++ operate "G") = some c ∧
      c.history.map (·.dot) = [⟨"G", 1⟩, ⟨"G", 2⟩] ∧ (c.history.map (·.dot)).Nodup := by
  have hrun : (replay Cluster.step DotsGuard gcPair
      (gossip ++ initiate "G" 8 ++ depart "G" ++ rejoin "G" true ++ operate "G")).map
        (fun c => c.history.map (·.dot)) = some [⟨"G", 1⟩, ⟨"G", 2⟩] := by decide +kernel
  obtain ⟨c, hc, hdots⟩ := Option.map_eq_some_iff.mp hrun
  exact ⟨c, hc, hdots, (dots_unique _ c (reachable_of_replay _ .start hc)).1⟩

/-- `G` has an event, departs, and comes back; there is no epoch state, and its next event gets the
dot of the first. -/
theorem rejoined_node_repeats_a_dot :
    ∃ c, Reachable Cluster.step (fun _ l => l.succeeds = true) gcPair c ∧
      c.history.map (·.dot) = [⟨"G", 1⟩, ⟨"G", 1⟩] := by
  have hrun : (replay Cluster.step (fun _ l => l.succeeds = true) gcPair
      (operate "G" ++ depart "G" ++ rejoin "G" true ++ operate "G")).map
        (fun c => c.history.map (·.dot)) = some [⟨"G", 1⟩, ⟨"G", 1⟩] := by decide +kernel
  obtain ⟨c, hc, hdots⟩ := Option.map_eq_some_iff.mp hrun
  exact ⟨c, reachable_of_replay _ .start hc, hdots⟩

end Cluster

end ExperimentalCrdt
