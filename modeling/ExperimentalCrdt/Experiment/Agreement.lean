import ExperimentalCrdt.Cluster.EventualConsistency
import ExperimentalCrdt.Experiment.Topology

/-!
# The servers of an experiment agree

In the simulation a server only has the peers that `compute_connect_node_ids` gives it. That is
enough to spread every operation to all: the peers connect the servers, so whoever pulls from each
of them again and again ends up with what all have done.
-/

namespace ExperimentalCrdt

namespace Experiment

open Cluster (FairRun GoesRound around aroundLabel answered_around)
open Transition (Reachable replay reachable_of_isSome)

/-- The servers of an experiment with their roles. -/
def members (gcCount normalCount : Nat) : HashMap NodeId Bool :=
  AList.ofPairs (replicas gcCount normalCount)

theorem mem_members {g n : Nat} {x : NodeId} (h : x ∈ members g n) : x ∈ serverNames g n := by
  unfold members AList.ofPairs at h
  rcases AList.mem_foldl_insert.mp h with ⟨v, hv⟩ | hempty
  · exact List.mem_map.mpr ⟨_, hv, rfl⟩
  · exact absurd hempty (AList.notMem_empty x)

theorem members_connected {g n : Nat} (hpos : 1 ≤ g) (hg : g < 2 ^ 64) (hn : n < 2 ^ 64)
    {x y : NodeId} (hx : x ∈ members g n) (hy : y ∈ members g n) :
    Relation.ReflTransGen (Lists g n) x y := by
  obtain ⟨v, rfl⟩ := mem_serverNames.mp (mem_members hx)
  obtain ⟨w, rfl⟩ := mem_serverNames.mp (mem_members hy)
  exact lists_connected hpos hg hn v w

/-- The normal server has added `x`, and the GC server has fetched it; each has asked once more. -/
def spreadOne : List (Label String) :=
  [.connect "gc-server-1" "normal-server-1" false, .connect "normal-server-1" "gc-server-1" true,
    .request "normal-server-1" (.clientOperation (.add "x")), .handle "normal-server-1" none,
    .request "gc-server-1" .doPullRound, .handle "gc-server-1" (some "normal-server-1"), .receive 0,
    .handle "normal-server-1" none, .receive 0, .handle "gc-server-1" none,
    .request "gc-server-1" .doPullRound, .handle "gc-server-1" (some "normal-server-1"), .receive 0,
    .handle "normal-server-1" none,
    .request "normal-server-1" .doPullRound, .handle "normal-server-1" (some "gc-server-1"),
      .receive 0,
    .handle "gc-server-1" none]

def pullOne : List (Label String) :=
  [.request "gc-server-1" .doPullRound, .handle "gc-server-1" (some "normal-server-1"), .receive 0,
    .handle "normal-server-1" none,
    .request "normal-server-1" .doPullRound, .handle "normal-server-1" (some "gc-server-1"),
      .receive 0,
    .handle "gc-server-1" none]

def oneSpread : Cluster String :=
  (replay Cluster.step (fun _ l => l.withoutGc = true) (.fixed (members 1 1)) spreadOne).getD
    (.fixed (members 1 1))

theorem goesRound_pullOne : GoesRound oneSpread pullOne := by decide +kernel

theorem fairRun_pullOne :
    FairRun (members 1 1) (Lists 1 1) (around oneSpread pullOne) (aroundLabel pullOne) := by
  refine ⟨?_, fun t => (goesRound_pullOne.facts (by decide) t).1, fun i j hij t => ?_⟩
  · have hrun : (replay Cluster.step (fun _ l => l.withoutGc = true)
        (.fixed (members 1 1)) spreadOne).isSome = true := by
      decide +kernel
    exact (reachable_of_isSome hrun : Reachable _ _ _ oneSpread)
  · have hpeers : i = "gc-server-1" ∧ j = "normal-server-1" ∨ i = "normal-server-1" ∧
        j = "gc-server-1" := by
      obtain ⟨gcReplica, peers, hi, hpeers, hj⟩ := hij
      have hcases : ∀ r ∈ replicas 1 1, ∀ y ∈ (computeConnectNodeIds r.1 r.2 1 1).getD ∅,
          r.1 = "gc-server-1" ∧ y = "normal-server-1" ∨ r.1 = "normal-server-1" ∧
            y = "gc-server-1" := by decide +kernel
      exact hcases (i, gcReplica) hi j (by rwa [hpeers])
    rcases hpeers with ⟨rfl, rfl⟩ | ⟨rfl, rfl⟩
    · exact answered_around (r := 3) (by decide) rfl (by decide +kernel) t
    · exact answered_around (r := 7) (by decide) rfl (by decide +kernel) t

end Experiment

end ExperimentalCrdt
