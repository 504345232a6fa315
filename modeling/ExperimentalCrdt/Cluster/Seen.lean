import ExperimentalCrdt.Cluster.FinalDot
import ExperimentalCrdt.Cluster.Obsolete

/-!
# What the replicas have seen

A vector forgets obsolete nodes, so nobody can read off it later what a replica has seen of them.
`Watched` carries that next to the cluster: what each server has counted since it started, and what
the writer of the stored epoch state had seen, which is taken over by whoever adopts that state. No
step reads it.

A row of a matrix clock, and the knowledge in a message, says no more of a node than it has seen, as
long as no server starts under an id that a row is still about (`Remembers.step`).
-/

namespace ExperimentalCrdt

variable {E : Type} {id : NodeId}

namespace Cluster

/-- What the vector of `id` counts of `n`. -/
def counter (c : Cluster E) (id n : NodeId) : Nat :=
  (c.core id).elim 0 fun k => k.replica.dvv.effectiveCounter n

/-- By this label, the bootstrap of `id` adopts the stored epoch state. -/
def adopts (id : NodeId) (c : Cluster E) : Label E → Bool
  | .resume x ok =>
    match c.task x with
    | some (.newReplicaBootstrap (.readEpochState e)) =>
      decide (x = id ∧ ok = true ∧ c.storage.readEpochState.epoch = e)
    | _ => false
  | _ => false

/-- Whose epoch state gets written by this label. -/
def writer (c : Cluster E) : Label E → Option NodeId
  | .resume x true =>
    match c.task x with
    | some (.initiateGc (.writeEpochState _ _)) => some x
    | _ => none
  | _ => none

/-- The server has bootstrapped, and has not come to the end of its shutdown. -/
def Live (c : Cluster E) (id : NodeId) : Prop :=
  ∃ k, c.core id = some k ∧ k.Serves ∧ k.shutdown ≠ .abort

/-- Nothing of an earlier life of `id` is around: no event, no final dot, and no row, in a matrix
clock or in a message. -/
def noTrace (c : Cluster E) (id : NodeId) : Bool :=
  (c.history.all fun e => decide (e.dot.nodeId ≠ id)) &&
    (c.storage.finalDots.all fun d => decide (d.1 ≠ id)) &&
      (c.nodes.entries.all fun s =>
        (s.2.engine.replica.gc.matrixClock.all fun mc => decide (id ∉ mc)) &&
          s.2.engine.rx.all fun req => (req.row? id).isNone) &&
        c.network.all fun p => (handleReceivedEnvelope p.envelope).all fun req =>
          (req.row? id).isNone

end Cluster

/-- A cluster, with what each replica has seen of each node, and what the writer of the stored epoch
state had seen. -/
structure Watched (E : Type) where
  cluster : Cluster E
  seen : NodeId → NodeId → Nat
  snapshot : NodeId → Nat

namespace Watched

/-- Nobody has seen anything yet. -/
def fixed (members : HashMap NodeId Bool) : Watched E :=
  { cluster := .fixed members, seen := fun _ _ => 0, snapshot := fun _ => 0 }

/-- What `q` has seen of `n` before its vector changes: a new server nothing, and whoever adopts the
stored epoch state also what its writer had seen. -/
def recalled (w : Watched E) (l : Label E) (q n : NodeId) : Nat :=
  if Cluster.keepsLife q l then
    if w.cluster.adopts q l then max (w.seen q n) (w.snapshot n) else w.seen q n
  else 0

def step [DecidableEq E] (w : Watched E) (l : Label E) : Option (Watched E) :=
  (w.cluster.step l).map fun c' =>
    { cluster := c'
      seen := fun q n => max (w.recalled l q n) (c'.counter q n)
      snapshot := (w.cluster.writer l).elim w.snapshot w.seen }

/-- `q` has seen every event of `p`. -/
def HasSeen (w : Watched E) (q p : NodeId) : Prop :=
  ∀ e ∈ w.cluster.history, e.dot.nodeId = p → e.dot.counter ≤ w.seen q p

/-- `ctx` says no more of `p` than it has seen. -/
def Within (w : Watched E) (p : NodeId) (ctx : CausalContext) : Prop :=
  ∀ n, counterAt ctx n ≤ w.seen p n

/-- Vectors, rows and messages say no more than has been seen. -/
structure Remembers (w : Watched E) : Prop where
  own : ∀ q n, w.cluster.counter q n ≤ w.seen q n
  rows : ∀ i p, w.cluster.RowsInherit (w.Within p) i p
  pending : ∀ dst req, w.cluster.Pending dst req → ∀ p ctx, req.row? p = some ctx → w.Within p ctx

end Watched

namespace Cluster

variable {c c' : Cluster E}

theorem counter_of_core {k : Core E id} (hk : c.core id = some k) (n : NodeId) :
    c.counter id n = k.replica.dvv.effectiveCounter n := by
  rw [counter, hk, Option.elim_some]

theorem mem_entries_of_core {k : Core E id} (hk : c.core id = some k) :
    ∃ s : Server E id, ⟨id, s⟩ ∈ c.nodes.entries ∧ s.core = k := by
  obtain ⟨s, hs, hcore⟩ := Option.map_eq_some_iff.mp hk
  exact ⟨s, AList.mem_lookup_iff.mp hs, hcore⟩

section noTrace

variable {p : NodeId} (h : c.noTrace p = true)
include h

theorem noTrace_history : ∀ e ∈ c.history, e.dot.nodeId ≠ p := by
  simp only [noTrace, Bool.and_eq_true, List.all_eq_true, decide_eq_true_eq] at h
  exact h.1.1.1

theorem noTrace_row {k : Core E id} (hk : c.core id = some k) {mc : MatrixClock}
    (hmc : k.replica.gc.matrixClock = some mc) : p ∉ mc := by
  simp only [noTrace, Bool.and_eq_true, List.all_eq_true] at h
  obtain ⟨s, hs, rfl⟩ := mem_entries_of_core hk
  have hrow := (h.1.2 _ hs).1
  have hmc : s.engine.replica.gc.matrixClock = some mc := hmc
  rw [hmc] at hrow
  exact of_decide_eq_true hrow

theorem noTrace_pending {dst : NodeId} {req : CrdtEngineRequest E} (hreq : c.Pending dst req) :
    req.row? p = none := by
  simp only [noTrace, Bool.and_eq_true, List.all_eq_true, Option.isNone_iff_eq_none] at h
  rcases hreq with ⟨s, hs, hreq⟩ | ⟨q, hq, -, hreq⟩
  · exact (h.1.2 _ (AList.mem_lookup_iff.mp hs)).2 req hreq
  · exact h.2 q hq req hreq

end noTrace

theorem row?_of_local {req : CrdtEngineRequest E} (h : Local req) (p : NodeId) :
    req.row? p = none := by
  cases req with
  | deltaRequest fromNode crdtId K => exact h.elim
  | deltaResponse fromNode crdtId payload km => exact h.elim
  | _ => rfl

variable [DecidableEq E]

theorem pending_of_others {l : Label E} (hl : ∀ x choice, l ≠ .handle x choice)
    (hstep : c.step l = some c') {dst : NodeId} {req : CrdtEngineRequest E}
    (hreq : c'.Pending dst req) :
    c.Pending dst req ∨ Local req := by
  cases l with
  | request | receive | duplicate | drop | connect | disconnect =>
    have hq : Quiet _ c c' := step_quiet (by exact trivial) hstep
    exact (hq.pending dst req hreq).imp_right local_of_puts
  | handle x choice => exact absurd rfl (hl x choice)
  | resume x ok => exact (step_resume hstep).1.pending dst req hreq
  | start x gcReplica => exact (step_start hstep).1.pending dst req hreq
  | heartbeat x =>
    obtain ⟨-, rfl⟩ := step_heartbeat hstep
    exact Or.inl hreq
  | beginShutdown x => exact (step_beginShutdown hstep).1.pending dst req hreq
  | continueShutdown x ok => exact (step_continueShutdown hstep).1.pending dst req hreq

/-- **Where the rows in messages come from**: a vector, or a matrix clock. -/
theorem row_of_pending {l : Label E} (hstep : c.step l = some c') {dst p : NodeId}
    {req : CrdtEngineRequest E} {ctx : CausalContext} (hreq : c'.Pending dst req)
    (hrow : req.row? p = some ctx) :
    c.Pending dst req ∨ (∀ n, counterAt ctx n ≤ c'.counter p n) ∨
      ∃ i k' mc, c'.core i = some k' ∧ k'.replica.gc.matrixClock = some mc ∧
      mc.lookup p = some ctx := by
  by_cases hl : ∃ x choice, l = .handle x choice
  · obtain ⟨x, choice, rfl⟩ := hl
    obtain ⟨s, req', hh⟩ := step_handle hstep
    refine (hh.pending dst req hreq).imp_right ?_
    rintro ⟨envelope, hsent, hr⟩
    rcases s.sent_cases c.storage.readEpochMetadata choice req' hsent hr with
      ⟨crdtId, rfl⟩ | ⟨crdtId, K, km, -, rfl, hkm⟩
    · -- the sender tells what it knows itself
      left
      simp only [CrdtEngineRequest.row?, Option.ite_none_right_eq_some, Option.some.injEq] at hrow
      obtain ⟨rfl, rfl⟩ := hrow
      intro n
      rw [counter_of_core hh.after, DotVersionVector.counterAt_effectiveMap]
    · right
      cases km with
      | none => cases hrow
      | some matrix =>
        obtain ⟨mc, hmc, hlookup⟩ := GcCoordinator.row_getKnowledgeMatrix _ _ (hkm matrix rfl) hrow
        exact ⟨x, _, mc, hh.after, hmc, hlookup⟩
  · push Not at hl
    refine (pending_of_others hl hstep hreq).imp_right fun hlocal => ?_
    rw [row?_of_local hlocal] at hrow
    cases hrow

end Cluster

namespace Watched

variable {w w' : Watched E} {p q : NodeId}

theorem inherited_within (w : Watched E) (p : NodeId) : Inherited (w.Within p) where
  join u v hu hv n := by
    rw [counterAt_vvJoin]
    exact Nat.max_le.mpr ⟨hu n, hv n⟩
  erase u q hu n := by
    rw [counterAt_erase]
    split
    · exact Nat.zero_le _
    · exact hu n

variable [DecidableEq E] {l : Label E}

theorem cluster_step (hstep : w.step l = some w') : w.cluster.step l = some w'.cluster := by
  obtain ⟨c', hc', rfl⟩ := Option.map_eq_some_iff.mp hstep
  exact hc'

theorem seen_step (hstep : w.step l = some w') (q n : NodeId) :
    w'.seen q n = max (w.recalled l q n) (w'.cluster.counter q n) := by
  obtain ⟨c', hc', rfl⟩ := Option.map_eq_some_iff.mp hstep
  rfl

theorem snapshot_step (hstep : w.step l = some w') :
    w'.snapshot = (w.cluster.writer l).elim w.snapshot w.seen := by
  obtain ⟨c', hc', rfl⟩ := Option.map_eq_some_iff.mp hstep
  rfl

theorem seen_le_step (hstep : w.step l = some w') (hlife : Cluster.keepsLife q l = true)
    (n : NodeId) :
    w.seen q n ≤ w'.seen q n := by
  rw [seen_step hstep, recalled, if_pos hlife]
  split
  · exact (Nat.le_max_left _ _).trans (Nat.le_max_left _ _)
  · exact Nat.le_max_left _ _

theorem snapshot_le_step (hstep : w.step l = some w') (hadopts : w.cluster.adopts q l = true)
    (n : NodeId) :
    w.snapshot n ≤ w'.seen q n := by
  have hlife : Cluster.keepsLife q l = true := by
    cases l with
    | start => cases hadopts
    | _ => rfl
  rw [seen_step hstep, recalled, if_pos hlife, if_pos hadopts]
  exact (Nat.le_max_right _ _).trans (Nat.le_max_left _ _)

theorem Within.step {ctx : CausalContext} (h : w.Within p ctx) (hstep : w.step l = some w')
    (hlife : Cluster.keepsLife p l = true) : w'.Within p ctx :=
  fun n => (h n).trans (seen_le_step hstep hlife n)

/-- **The step lemma**: what is said of a node, it has seen, if nothing is around of the node that
starts. -/
theorem Remembers.step (h : w.Remembers) (hstep : w.step l = some w')
    (hstart : ∀ x, Cluster.keepsLife x l = false → w.cluster.noTrace x = true) : w'.Remembers := by
  have hcluster := cluster_step hstep
  have hown : ∀ q n, w'.cluster.counter q n ≤ w'.seen q n := fun q n => by
    rw [seen_step hstep]
    exact Nat.le_max_right _ _
  have hpending : ∀ dst req, w.cluster.Pending dst req → ∀ p ctx, req.row? p = some ctx →
      w'.Within p ctx := by
    intro dst req hreq p ctx hrow
    cases hlife : Cluster.keepsLife p l with
    | true => exact (h.pending dst req hreq p ctx hrow).step hstep hlife
    | false =>
      rw [Cluster.noTrace_pending (hstart p hlife) hreq] at hrow
      cases hrow
  have hrows : ∀ i p, w'.cluster.RowsInherit (w'.Within p) i p := by
    intro i p
    have hbefore : w.cluster.RowsInherit (w'.Within p) i p := by
      intro k hk mc hmc ctx hctx
      cases hlife : Cluster.keepsLife p l with
      | true => exact (h.rows i p k hk mc hmc ctx hctx).step hstep hlife
      | false =>
        exact absurd (AList.mem_of_lookup hctx) (Cluster.noTrace_row (hstart p hlife) hk hmc)
    refine hbefore.step (w'.inherited_within p) ?_ hcluster
    cases l with
    | handle x choice =>
      rintro rfl req hnext ctx hrow
      obtain ⟨s, req', hh⟩ := Cluster.step_handle hcluster
      obtain rfl := Option.some.inj (hh.next.symm.trans hnext)
      exact hpending x _ hh.taken p ctx hrow
    | _ => trivial
  refine ⟨hown, hrows, fun dst req hreq p ctx hrow => ?_⟩
  rcases Cluster.row_of_pending hcluster hreq hrow
    with hold | hvector | ⟨i, k', mc, hk', hmc, hlookup⟩
  · exact hpending dst req hold p ctx hrow
  · exact fun n => (hvector n).trans (hown p n)
  · exact hrows i p k' hk' mc hmc ctx hlookup

omit [DecidableEq E] in
theorem remembers_fixed (members : HashMap NodeId Bool) :
    (fixed members : Watched E).Remembers := by
  refine ⟨fun q n => ?_, fun i p k hk mc hmc ctx hctx => ?_,
    fun dst req hreq => absurd hreq (Cluster.not_pending_fixed members dst req)⟩
  · cases hk : (Cluster.fixed members : Cluster E).core q with
    | none =>
      show ((Cluster.fixed members : Cluster E).core q).elim 0 _ ≤ 0
      rw [hk]
      exact Nat.le_refl 0
    | some k =>
      obtain ⟨gcReplica, -, rfl⟩ := Cluster.core_fixed_cases hk
      exact (Cluster.counter_of_core hk n).le.trans (DotVersionVector.effectiveCounter_new n q).le
  · obtain ⟨gcReplica, -, rfl⟩ := Cluster.core_fixed_cases hk
    cases gcReplica with
    | false => cases hmc
    | true =>
      cases hmc
      exact absurd (AList.mem_of_lookup hctx) (AList.notMem_empty p)

theorem watched_of_reachable {ok : Cluster E → Label E → Prop} {c : Cluster E} (w : Watched E)
    (h : Transition.Reachable Cluster.step ok w.cluster c) :
    ∃ w' : Watched E, w'.cluster = c ∧
    Transition.Reachable step (fun w l => ok w.cluster l) w w' := by
  induction h with
  | start => exact ⟨w, rfl, .start⟩
  | next _ guard taken ih =>
    obtain ⟨v, rfl, hv⟩ := ih
    refine ⟨_, ?_, .next hv guard (Option.map_eq_some_iff.mpr ⟨_, taken, rfl⟩)⟩
    rfl

end Watched

end ExperimentalCrdt
