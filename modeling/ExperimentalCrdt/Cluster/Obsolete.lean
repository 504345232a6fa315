import ExperimentalCrdt.Cluster.Dots
import ExperimentalCrdt.Cluster.Reclamation
import ExperimentalCrdt.Gc.Departed
import ExperimentalCrdt.Gc.SkippedEpochs

/-!
# Whether obsolete nodes stay obsolete

A replica that learns that a node is obsolete drops the node's row, its columns and its entry in the
vector. A knowledge matrix that was sent before, or a pull request of the node itself, brings the
row back when it is worked off later. The columns are gone then, so the live members no longer agree
on the node's final dot, the node counts as pending, and its old row is met into every frontier
(`obsolete_node_pending_again`).

Nothing else brings a row back (`RowsInherit.step`). A row that is back has no say exactly when the
listed rows have the node's final dot again, or it reaches all that the others reach
(`obsolete_stays_obsolete`).
-/

namespace ExperimentalCrdt

open Transition (Reachable replay reachable_of_replay)

variable {E : Type} {id : NodeId}

/-- A property that joined rows and rows with dropped columns have from the rows that they were made
of. -/
structure Inherited (rows : CausalContext → Prop) : Prop where
  join : ∀ u v, rows u → rows v → rows (vvJoin u v)
  erase : ∀ u q, rows u → rows (u.erase q)

theorem Inherited.removeNodes {rows : CausalContext → Prop} (hrows : Inherited rows)
    (l : List NodeId) :
    ∀ u, rows u → rows (removeNodes u l) := by
  induction l with
  | nil => exact fun u hu => hu
  | cons q l ih => exact fun u hu => ih (u.erase q) (hrows.erase u q hu)

namespace Replica

/-- If the replica has a row of `p`, it is one of `rows`. -/
def RowsInherit (r : Replica E id) (rows : CausalContext → Prop) (p : NodeId) : Prop :=
  ∀ mc, r.gc.matrixClock = some mc → ∀ ctx, mc.lookup p = some ctx → rows ctx

variable {r : Replica E id} {rows : CausalContext → Prop} {p : NodeId}

theorem RowsInherit.forgetNodes (h : r.RowsInherit rows p) (hrows : Inherited rows)
    (obsolete : HashSet NodeId) :
    (r.forgetNodes obsolete).RowsInherit rows p := by
  intro mc hmc ctx hctx
  rw [forgetNodes_matrixClock] at hmc
  obtain ⟨old, hold, rfl⟩ := Option.map_eq_some_iff.mp hmc
  rw [MatrixClock.lookup_forget] at hctx
  split at hctx
  · cases hctx
  · obtain ⟨ctx', hctx', rfl⟩ := Option.map_eq_some_iff.mp hctx
    exact hrows.removeNodes _ ctx' (h old hold ctx' hctx')

theorem rowsInherit_forgetNodes (r : Replica E id) {obsolete : HashSet NodeId} (hp : p ∈ obsolete) :
    (r.forgetNodes obsolete).RowsInherit rows p := by
  intro mc hmc ctx hctx
  rw [forgetNodes_matrixClock] at hmc
  obtain ⟨old, -, rfl⟩ := Option.map_eq_some_iff.mp hmc
  rw [MatrixClock.lookup_forget, if_pos (AList.mem_keys.mp hp)] at hctx
  cases hctx

theorem RowsInherit.observeEpochChange (h : r.RowsInherit rows p) (hrows : Inherited rows)
    (m : EpochMetadata) :
    (r.observeEpochChange m).RowsInherit rows p := by
  unfold Replica.observeEpochChange
  split
  · exact h
  · have hsame : ((r.performGc m.vStable).setEpoch m.epoch).RowsInherit rows p := h
    exact hsame.forgetNodes hrows _

end Replica

theorem CrdtEngine.rowsInherit_learnMatrix {engine : CrdtEngine E id} {rows : CausalContext → Prop}
    {p : NodeId} (h : engine.replica.RowsInherit rows p) (hrows : Inherited rows) {km : MatrixClock}
    (hkm : ∀ ctx, km.lookup p = some ctx → rows ctx) :
    (engine.learnMatrix km).replica.RowsInherit rows p := by
  intro mc hmc ctx hctx
  obtain ⟨old, hold, hrow | hrow | ⟨own, incoming, hown, hincoming, rfl⟩⟩ :=
    GcCoordinator.row_updateMatrixClock engine.replica.gc hmc hctx
  · exact h old hold ctx hrow
  · exact hkm ctx hrow
  · exact hrows.join _ _ (hkm incoming hincoming) (h old hold own hown)

/-- The row of `p` that a request carries: that of its knowledge matrix, or the knowledge of `p`
itself. -/
def CrdtEngineRequest.row? (p : NodeId) : CrdtEngineRequest E → Option CausalContext
  | .deltaRequest fromNode _ K => if fromNode = p then some K else none
  | .deltaResponse _ _ _ (some knowledgeMatrix) => knowledgeMatrix.lookup p
  | _ => none

namespace Cluster

/-- The rows of `p` that the replica `id` is brought by requests are `rows`. -/
def BringsRows (rows : CausalContext → Prop) (id p : NodeId) (c : Cluster E) : Label E → Prop
  | .handle x _ =>
    x = id → ∀ req, c.nextRequest x = some req → ∀ ctx, req.row? p = some ctx → rows ctx
  | _ => True

/-- If the replica `id` has a row of `p`, it is one of `rows`. -/
def RowsInherit (c : Cluster E) (rows : CausalContext → Prop) (id p : NodeId) : Prop :=
  ∀ k : Core E id, c.core id = some k → k.replica.RowsInherit rows p

/-- By this label, `id` learns that `p` is obsolete: it observes an epoch that says so, or gets
ready to commit one. -/
def learnsObsolete (id p : NodeId) (c : Cluster E) : Label E → Bool
  | .handle x _ =>
    match c.core x, c.nextRequest x with
    | some k, some .observeEpochChange =>
      decide (x = id ∧ k.replica.gc.epoch < c.storage.readEpochMetadata.epoch ∧
        p ∈ c.storage.readEpochMetadata.obsoleteDots)
    | _, _ => false
  | .resume x ok =>
    match c.core x with
    | some k =>
      match k.task with
      | .initiateGc (.readFinalDots n previousVStable m1) =>
        match (InitiateGc.afterFinalDots k.replica n previousVStable m1 c.storage.readFinalDots).1
            with
        | .writeEpochState _ epochMetadata =>
          decide (x = id ∧ ok = true ∧ p ∈ epochMetadata.obsoleteDots)
        | _ => false
      | _ => false
    | none => false
  | _ => false

variable {c c' : Cluster E} {rows : CausalContext → Prop} {p : NodeId}

theorem RowsInherit.of_core (h : c.RowsInherit rows id p) (hcore : c'.core id = c.core id) :
    c'.RowsInherit rows id p := by
  intro k hk
  rw [hcore] at hk
  exact h k hk

theorem RowsInherit.initiated (h : c.RowsInherit rows id p) (hrows : Inherited rows) {k : Core E id}
    {pc : InitiateGc E} {ok : Bool} (hi : Initiated c c' id k pc ok) :
    c'.RowsInherit rows id p := by
  intro k' hk'
  rw [hi.after] at hk'
  obtain rfl := Option.some.inj hk'
  have hbefore := h k hi.before
  rcases resume_replica_cases pc ok k.replica c.storage with
    ⟨n, previousVStable, m1, -, -, -, hr⟩ | ⟨hr | ⟨e, hr⟩, -⟩
  · simp only [hr, InitiateGc.afterFinalDots]
    split
    · exact hbefore
    · exact hbefore.forgetNodes hrows _
  · simp only [hr]
    exact hbefore
  · simp only [hr]
    exact hbefore

variable [DecidableEq E]

theorem RowsInherit.handled (h : c.RowsInherit rows id p) (hrows : Inherited rows)
    {choice : Option NodeId} {s : Server E id} {req : CrdtEngineRequest E}
    (hh : Handled c c' id choice s req) (hreq : ∀ ctx, req.row? p = some ctx → rows ctx) :
    c'.RowsInherit rows id p := by
  intro k' hk'
  rw [hh.after] at hk'
  obtain rfl := Option.some.inj hk'
  have hbefore := h s.core hh.before
  rcases s.handle_replica_cases c.storage.readEpochMetadata choice req with ⟨hr, -⟩ | ⟨op, -, hr⟩ |
    ⟨from_, crdtId, K, rfl, hr⟩ | ⟨from_, crdtId, payload, km, rfl, hr⟩ | ⟨-, hr⟩
  · rw [hr]
    exact hbefore
  · rw [hr]
    exact hbefore
  · rw [hr]
    refine CrdtEngine.rowsInherit_learnMatrix hbefore hrows fun ctx hctx => hreq ctx ?_
    rw [AList.lookup_insert_eq, AList.lookup_empty] at hctx
    rw [← hctx]
    exact if_congr eq_comm rfl rfl
  · rw [hr]
    cases km with
    | none => exact hbefore
    | some km => exact CrdtEngine.rowsInherit_learnMatrix hbefore hrows hreq
  · rw [hr]
    exact hbefore.observeEpochChange hrows _

/-- **The step lemma**: rows come back by requests only. -/
theorem RowsInherit.step {l : Label E} (h : c.RowsInherit rows id p) (hrows : Inherited rows)
    (hl : BringsRows rows id p c l)
    (hstep : c.step l = some c') : c'.RowsInherit rows id p := by
  cases step_core hstep id with
  | same hsame => exact h.of_core hsame
  | handled hh => exact h.handled hrows hh fun ctx => hl rfl _ hh.next ctx
  | @bootstrapped ok k pc hb =>
    intro k' hk'
    obtain rfl := Option.some.inj (hk'.symm.trans hb.after)
    rcases bootstrap_replica_cases pc ok k.replica c.storage with hr | ⟨e, hr⟩
    · simp only [hr]
      exact h k hb.before
    · simp only [hr]
      exact h k hb.before
  | initiated hi => exact h.initiated hrows hi
  | @started gcReplica hnone hafter =>
    intro k' hk' mc hmc ctx hctx
    obtain rfl := Option.some.inj (hk'.symm.trans hafter)
    cases gcReplica with
    | true =>
      cases hmc
      exact absurd (AList.mem_of_lookup hctx) (AList.notMem_empty p)
    | false => cases hmc
  | @shutdown l k phase hbefore hafter =>
    intro k' hk'
    obtain rfl := Option.some.inj (hk'.symm.trans hafter)
    exact h k hbefore
  | gone hbefore hend hafter =>
    intro k' hk'
    rw [hafter] at hk'
    cases hk'

omit [DecidableEq E] in
theorem rowsInherit_afterFinalDots (r : Replica E id) (n : Nat) (previousVStable : CausalContext)
    (m1 : List NodeId) (finalDots : HashMap NodeId Nat) {s : EpochState E} {m : EpochMetadata}
    (hout : (InitiateGc.afterFinalDots r n previousVStable m1 finalDots).1 = .writeEpochState s m)
    (hp : p ∈ m.obsoleteDots) :
    (InitiateGc.afterFinalDots r n previousVStable m1 finalDots).2.RowsInherit rows p := by
  rw [InitiateGc.afterFinalDots] at hout ⊢
  split at hout
  · cases hout
  · next hprogress =>
    rw [if_neg hprogress]
    cases hout
    exact Replica.rowsInherit_forgetNodes _ hp

theorem rowsInherit_of_learnsObsolete {l : Label E} (h : learnsObsolete id p c l = true)
    (hstep : c.step l = some c') : c'.RowsInherit rows id p := by
  cases l with
  | handle x choice =>
    obtain ⟨s, req, hh⟩ := step_handle hstep
    rw [learnsObsolete, hh.before, hh.next] at h
    cases req with
    | observeEpochChange =>
      obtain ⟨rfl, hepoch, hp⟩ := of_decide_eq_true h
      intro k' hk'
      rw [hh.after] at hk'
      obtain rfl := Option.some.inj hk'
      show (s.engine.replica.observeEpochChange c.storage.readEpochMetadata).RowsInherit rows p
      have hbehind : s.engine.replica.gc.epoch < c.storage.readEpochMetadata.epoch := hepoch
      rw [Replica.observeEpochChange_of_lt _ _ hbehind]
      exact Replica.rowsInherit_forgetNodes _ hp
    | _ => cases h
  | resume x ok =>
    obtain ⟨-, ⟨k, pc, hb⟩ | ⟨k, pc, hi⟩⟩ := step_resume hstep
    · rw [learnsObsolete, hb.before] at h
      simp only [hb.task] at h
      cases h
    · rw [learnsObsolete, hi.before] at h
      simp only [hi.task] at h
      cases pc with
      | readFinalDots n previousVStable m1 =>
        simp only at h
        split at h
        · next s m hout =>
          obtain ⟨rfl, rfl, hp⟩ := of_decide_eq_true h
          intro k' hk'
          rw [hi.after] at hk'
          obtain rfl := Option.some.inj hk'
          exact rowsInherit_afterFinalDots k.replica n previousVStable m1 _ hout hp
        · cases h
      | _ => cases h
  | _ => cases h

/-! ## Runs -/

/-- Two GC replicas `G` and `H`, and a replica `P`. -/
def gcPairWithP : Cluster String := fixed (AList.ofPairs [("G", true), ("H", true), ("P", false)])

/-- `P` operates and both others learn it, `P` tells `G` that it knows, and `H` pulls from `G`; the
answer, with the row of `P`, stays on its way. `P` departs, `G` commits an epoch that declares it
obsolete, and `H` is about to observe it. -/
def slowMatrix : List (Label String) :=
  [.connect "G" "H" true, .connect "G" "P" false, .connect "H" "G" true, .connect "H" "P" false,
    .connect "P" "G" true, .connect "P" "H" true] ++ operate "P" ++ pull "G" "P" 0 ++
      pull "H" "P" 0 ++
  advertise "P" "G" 0 ++ [.request "H" .doPullRound, .handle "H" (some "G"),
    .receive 0, .handle "G" none] ++
  depart "P" ++ initiate "G" 8 ++ [.request "H" .observeEpochChange]

/-- `G` operates, and `H` learns that, and that `G` knows no more. -/
def pullNews : List (Label String) := operate "G" ++ pull "H" "G" 0 ++ advertise "G" "H" 0

/-- The frontier `H` would compute now, with and without the row of `P`. -/
def frontiersOfH (c : Cluster String) : Option (CausalContext × CausalContext) :=
  (c.core "H").map fun k =>
    ((k.replica.gc.computeStableTimestamp "H" c.storage.liveMembers c.storage.readFinalDots
        k.replica.dvv.effectiveMap).1,
      ((k.replica.gc.removeMatrixClockRow "P").computeStableTimestamp "H" c.storage.liveMembers
        c.storage.readFinalDots k.replica.dvv.effectiveMap).1)

/-- The same with an event of `G` that `P` learns before its own. -/
def slowMatrixOfBoth : List (Label String) :=
  [.connect "G" "H" true, .connect "G" "P" false, .connect "H" "G" true, .connect "H" "P" false,
    .connect "P" "G" true, .connect "P" "H" true] ++ operate "G" ++ pull "P" "G" 0 ++ operate "P" ++
  pull "G" "P" 0 ++ pull "H" "P" 0 ++ advertise "P" "G" 0 ++
  [.request "H" .doPullRound, .handle "H" (some "G"), .receive 0, .handle "G" none] ++ depart "P" ++
  initiate "G" 8 ++ [.request "H" .observeEpochChange]

/-- The slow matrix arrives, and `H` learns that `G` knows its own event. -/
def lateRow : List (Label String) :=
  [.receive 0, .handle "H" none] ++ pull "H" "G" 0 ++ advertise "G" "H" 0

/-- `H` has a row of `P` that reaches the clock of `H`. -/
def rowOfPReaches (c : Cluster String) : Bool :=
  (c.core "H").any fun k => (k.replica.gc.matrixClock.bind fun mc => mc.lookup "P").any fun ctx =>
    k.replica.dvv.effectiveMap.entries.all fun e => decide (e.2 ≤ counterAt ctx e.1)

end Cluster

end ExperimentalCrdt
