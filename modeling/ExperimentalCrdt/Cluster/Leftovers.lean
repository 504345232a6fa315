import ExperimentalCrdt.Cluster.Dots
import ExperimentalCrdt.Gc.SkippedEpochs

/-!
# What obsolete nodes leave behind

A commit takes the obsolete nodes out of the frontier before it reclaims tombstones, so the removals
that such a node issued stay in the sets, at the initiator and at every observer
(`stable_tombstones_reclaimed_iff`). No later frontier mentions the node, and they stay for good.
-/

namespace ExperimentalCrdt

open InitiateGc (World run prepareCommit)
open Transition (Reachable replay reachable_of_replay)

variable {E : Type} {id : NodeId}

/-! ## Tombstones -/

namespace Replica

/-- The replica holds a tombstone of a remove under `v`. -/
def HoldsStable (r : Replica E id) (v : CausalContext) : Prop :=
  ∃ a d, r.crdt.tombstones.lookup a = some d ∧ d.counter ≤ counterAt v d.nodeId

/-- The replica holds a tombstone of a remove under `v` that one of `nodes` has issued. -/
def HoldsStableOf (r : Replica E id) (v : CausalContext) (nodes : HashSet NodeId) : Prop :=
  ∃ a d, r.crdt.tombstones.lookup a = some d ∧ d.nodeId ∈ nodes ∧ 0 < d.counter ∧
    d.counter ≤ counterAt v d.nodeId

theorem holdsStable_reclaimed [DecidableEq E] (observer : NodeId) {r r' : Replica E id}
    {v : CausalContext} {obsolete : HashSet NodeId}
    (h : ∀ a d, r'.crdt.tombstones.lookup a = some d ↔ r.crdt.tombstones.lookup a = some d ∧
      d ∉ (frontierDvv observer (removeNodes v obsolete.keys)).known) :
    r'.HoldsStable v ↔ r.HoldsStableOf v obsolete := by
  have hknown : ∀ d : Dot, d ∉ (frontierDvv observer (removeNodes v obsolete.keys)).known ↔
      if d.nodeId ∈ obsolete then 0 < d.counter else counterAt v d.nodeId < d.counter := by
    intro d
    show ¬ d.counter ≤ (frontierDvv observer (removeNodes v obsolete.keys)).effectiveCounter
      d.nodeId ↔ _
    rw [DotVersionVector.effectiveCounter_frontierDvv, counterAt_removeNodes]
    simp only [← AList.mem_keys]
    split
    · omega
    · omega
  constructor
  · rintro ⟨a, d, htomb, hle⟩
    obtain ⟨hold, hkept⟩ := (h a d).mp htomb
    rw [hknown] at hkept
    split at hkept
    · next hmem => exact ⟨a, d, hold, hmem, hkept, hle⟩
    · omega
  · rintro ⟨a, d, hold, hmem, hpos, hle⟩
    refine ⟨a, d, (h a d).mpr ⟨hold, ?_⟩, hle⟩
    rw [hknown, if_pos hmem]
    exact hpos

end Replica

/-- **Every stable tombstone is reclaimed by a commit, at the initiator and at a replica that
observes it, exactly when** neither holds one that an obsolete node has issued. The call is followed
from its read of the final dots on; before that it does not touch its replica. -/
theorem stable_tombstones_reclaimed_iff [DecidableEq E] (w : World E) (n : Nat)
    (previousVStable : CausalContext) (m1 : List NodeId) (r : Replica E id) (st : Storage E)
    (o : InitiateGc.Outcome E id) (observer : NodeId) (r₂ : Replica E observer)
    (hrun : run w (.readFinalDots n previousVStable m1) r st = some o)
    (hcommit : o.result = .ok none) (hbehind : r₂.gc.epoch + 1 = n) :
    let stable := r.gc.computeStableTimestamp id m1 (w.interfere .readFinalDots st).readFinalDots
      r.dvv.effectiveMap
    (¬ o.replica.HoldsStable stable.1 ∧
        ¬ (r₂.observeEpochChange (prepareCommit r n stable.1 stable.2).2.2).HoldsStable stable.1) ↔
      ¬ r.HoldsStableOf stable.1 stable.2 ∧ ¬ r₂.HoldsStableOf stable.1 stable.2 := by
  intro stable
  have hinitiator : o.replica.HoldsStable stable.1 ↔ r.HoldsStableOf stable.1 stable.2 := by
    apply Replica.holdsStable_reclaimed id
    intro a d
    have hstable : r.gc.computeStableTimestamp id m1 (w.interfere .readFinalDots st).readFinalDots
        r.dvv.effectiveMap = stable := rfl
    rw [InitiateGc.run_committed w r st n previousVStable m1 hrun hcommit hstable]
    show ((r.forgetNodes stable.2).crdt.performGc _).tombstones.lookup a = some d ↔ _
    rw [Replica.forgetNodes_crdt]
    exact r.crdt.lookup_tombstones_performGc a d _
  have hobserver :
      (r₂.observeEpochChange (prepareCommit r n stable.1 stable.2).2.2).HoldsStable stable.1 ↔
      r₂.HoldsStableOf stable.1 stable.2 := by
    apply Replica.holdsStable_reclaimed observer
    intro a d
    have hlt : r₂.gc.epoch < (prepareCommit r n stable.1 stable.2).2.2.epoch := by
      rw [Replica.prepareCommit_epoch]
      omega
    rw [r₂.observe_tombstones _ hlt, ← Bool.not_eq_true, DotVersionVector.dominatesDot_iff]
    rfl
  rw [hinitiator, hobserver]

/-- A lone GC replica that has removed `x` commits; a replica without any state observes. -/
theorem stable_tombstones_reclaimed_removedX :
    ∃ o, run (World.alone fun _ => true) (.readFinalDots 1 ∅ ["G"]) InitiateGc.removedX
        (Storage.fresh (AList.ofKeys ["G"])) = some o ∧
      let stable := InitiateGc.removedX.gc.computeStableTimestamp "G" ["G"] ∅
        InitiateGc.removedX.dvv.effectiveMap
      (¬ o.replica.HoldsStable stable.1 ∧
          ¬ ((Replica.new false : Replica String "R").observeEpochChange
            (prepareCommit InitiateGc.removedX 1 stable.1 stable.2).2.2).HoldsStable stable.1) ↔
        ¬ InitiateGc.removedX.HoldsStableOf stable.1 stable.2 ∧
          ¬ (Replica.new false : Replica String "R").HoldsStableOf stable.1 stable.2 :=
  ⟨_, rfl, stable_tombstones_reclaimed_iff (World.alone fun _ => true) 1 ∅ ["G"] InitiateGc.removedX
    (Storage.fresh (AList.ofKeys ["G"])) _ "R" (Replica.new false) rfl rfl rfl⟩

namespace Cluster

/-- A GC replica `G` and a replica `P`. -/
def hostAndGuest : Cluster String := fixed (AList.ofPairs [("G", true), ("P", false)])

/-- `P` adds `x` and removes it again, `G` learns of both, and `P` departs. -/
def guestRemoves : List (Label String) :=
  [.connect "G" "P" false, .connect "P" "G" true] ++ operate "P" ++
  [.request "P" (.clientOperation (.remove "x")), .handle "P" none,
    .request "P" .doPullRound, .handle "P" (some "G"), .receive 0, .handle "G" none,
    .receive 0, .handle "P" none, .receive 0, .handle "G" none] ++ depart "P"

/-- The frontier of the call that `id` is about to compute, and what the call ends with when nobody
interferes. -/
def callOutcome (c : Cluster String) (id : NodeId) :
    Option (CausalContext × HashSet NodeId × Option (InitiateGc.Outcome String id)) :=
  (c.core id).bind fun k =>
    match k.task with
    | .initiateGc (.readFinalDots n previousVStable m1) =>
      let stable :=
        k.replica.gc.computeStableTimestamp id m1 c.storage.readFinalDots k.replica.dvv.effectiveMap
      some (stable.1, stable.2,
        run (World.alone fun _ => true) (.readFinalDots n previousVStable m1) k.replica c.storage)
    | _ => none

/-- `G` commits an epoch that declares `P` obsolete, and keeps the tombstone of the remove of `P`
that the frontier covers. -/
theorem removal_of_obsolete_node_stays :
    ∃ c, Reachable Cluster.step (fun _ l => l.succeeds = true) hostAndGuest c ∧
      ∃ v obsolete o, callOutcome c "G" = some (v, obsolete, some o) ∧ o.result = .ok none ∧
        "P" ∈ obsolete ∧ o.replica.HoldsStable v := by
  have hrun : ((replay Cluster.step (fun _ l => l.succeeds = true) hostAndGuest
      (guestRemoves ++ initiate "G" 4)).bind fun c => callOutcome c "G").map
        (fun out => out.2.2.map fun o => decide (o.result = .ok none) && decide ("P" ∈ out.2.1) &&
          decide (o.replica.crdt.tombstones.lookup ⟨"P", 1⟩ = some ⟨"P", 2⟩) &&
          decide (2 ≤ counterAt out.1 "P")) = some (some true) := by decide +kernel
  obtain ⟨out, hout, hchecks⟩ := Option.map_eq_some_iff.mp hrun
  obtain ⟨c, hc, hcall⟩ := Option.bind_eq_some_iff.mp hout
  obtain ⟨v, obsolete, o⟩ := out
  obtain ⟨o, rfl, hchecks⟩ := Option.map_eq_some_iff.mp hchecks
  simp only [Bool.and_eq_true, decide_eq_true_eq] at hchecks
  obtain ⟨⟨⟨hresult, hobsolete⟩, htomb⟩, hle⟩ := hchecks
  exact ⟨c, reachable_of_replay _ .start hc, v, obsolete, o, hcall, hresult,
    hobsolete, _, _, htomb, hle⟩

end Cluster

end ExperimentalCrdt
