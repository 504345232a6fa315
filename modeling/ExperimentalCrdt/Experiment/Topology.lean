import ExperimentalCrdt.Lib.Checked
import ExperimentalCrdt.Lib.HashMap
import ExperimentalCrdt.Lib.HubGraph
import ExperimentalCrdt.Lib.Text

/-!
# The overlay of an experiment

`compute_connect_node_ids` in `experiment/experiment.rs`, by which each simulated server finds the
servers it may connect to, and `data_processing/generate_balanced_topology.py`, which writes the
same into a compose file. The numbers are `usize`; the index of a server is read back from its name.

Both are the graph of hubs and leaves over the servers (`overlay`): `mem_peers_iff` says so of the
simulation, `mem_servicePeers_iff` of the script.
-/

namespace ExperimentalCrdt

namespace Experiment

open Checked
open Text (parseU64 parseU64_toDigits dropPrefix?_iff append_toString_injective)

def gcServer (i : Nat) : String := "gc-server-" ++ toString i

def normalServer (i : Nat) : String := "normal-server-" ++ toString i

/-- The servers of an experiment by name; true is the role of a GC replica. -/
def replicas (gcCount normalCount : Nat) : List (String × Bool) :=
  (List.range' 1 gcCount).map (fun r => (gcServer r, true)) ++
    (List.range' 1 normalCount).map (fun r => (normalServer r, false))

/-! ## The simulation -/

def parseIndex (nodeName start : String) : Option Nat :=
  (nodeName.toList.dropPrefix? start.toList).bind parseU64

/-- Round-robin: normal `i` to GC `(i - 1) % gcCount + 1`. -/
def gcIndex (gcCount i : Nat) : Option Nat := do
  let below ← sub i 1
  let turn ← rem below gcCount
  addU64 turn 1

/-- No value stands for a panic. -/
def computeConnectNodeIds (nodeName : String) (gcReplica : Bool) (gcCount normalCount : Nat) :
    Option (HashSet String) :=
  if gcReplica then do
    let idx ← parseIndex nodeName "gc-server-"
    let gcPeers := ((List.range' 1 gcCount).filter fun j => j ≠ idx).map gcServer
    let assigned ← (List.range' 1 normalCount).filterM fun i => do
      let gcIdx ← gcIndex gcCount i
      some (gcIdx == idx)
    let normalPeers := assigned.map normalServer
    some (AList.ofKeys (gcPeers ++ normalPeers))
  else do
    let idx ← parseIndex nodeName "normal-server-"
    let gcIdx ← gcIndex gcCount idx
    some (AList.ofKeys [gcServer gcIdx])

/-! ## The script -/

/-- Each normal node gets exactly one GC node, round-robin. -/
def assignGcToNormal (normalCount gcCount : Nat) : Option (HashMap String String) := do
  let items ← (List.range' 1 normalCount).mapM fun i => do
    let turn ← rem (i - 1) gcCount
    some (normalServer i, gcServer (turn + 1))
  some (AList.ofPairs items)

/-- Invert the mapping; a dictionary is gone through in the order of insertion, and a map has the
latest first. -/
def assignNormalsToGc (normalToGc : HashMap String String) : HashMap String (List String) :=
  normalToGc.toPairs.reverse.foldl
    (fun gcToNormals e => gcToNormals.upsert e.2 fun normals => normals.getD [] ++ [e.1]) ∅

/-- The services with their lists of peers. -/
def services (normalCount gcCount : Nat) : Option (HashMap String (List String)) := do
  let normalToGc ← assignGcToNormal normalCount gcCount
  let gcToNormals := assignNormalsToGc normalToGc
  let gcServices := (List.range' 1 gcCount).map fun i =>
    let normalPeers := (gcToNormals.lookup (gcServer i)).getD []
    let gcPeers := ((List.range' 1 gcCount).filter fun j => j ≠ i).map gcServer
    (gcServer i, normalPeers ++ gcPeers)
  let normalServices ← (List.range' 1 normalCount).mapM fun i => do
    let gcPeer ← normalToGc.lookup (normalServer i)
    some (normalServer i, [gcPeer])
  some (AList.ofPairs (gcServices ++ normalServices))

/-! ## The names -/

theorem gcServer_injective : Function.Injective gcServer := append_toString_injective _

theorem normalServer_injective : Function.Injective normalServer := append_toString_injective _

theorem gcServer_ne_normalServer (i j : Nat) : gcServer i ≠ normalServer j := by
  intro h
  have htext := congrArg (fun s => s.toList.head?) h
  unfold gcServer normalServer at htext
  simp at htext

section overlay

variable {gcCount normalCount : Nat}

/-- The servers by position, with their roles: the GC servers on the left, the normal ones on the
right. -/
def server : Fin gcCount ⊕ Fin normalCount → String × Bool
  | .inl a => (gcServer (a + 1), true)
  | .inr b => (normalServer (b + 1), false)

theorem server_name_injective : Function.Injective
    fun v : Fin gcCount ⊕ Fin normalCount => (server v).1 := by
  rintro (a | b) (a' | b') h
  · have heq := gcServer_injective h
    exact congrArg Sum.inl (Fin.ext (Nat.succ.inj heq))
  · exact absurd h (gcServer_ne_normalServer _ _)
  · exact absurd h.symm (gcServer_ne_normalServer _ _)
  · have heq := normalServer_injective h
    exact congrArg Sum.inr (Fin.ext (Nat.succ.inj heq))

theorem exists_mem_range'_iff {m : Nat} {P : Nat → Prop} :
    (∃ j ∈ List.range' 1 m, P j) ↔ ∃ a : Fin m, P (a + 1) := by
  constructor
  · rintro ⟨j, hj, hP⟩
    rw [List.mem_range'_1] at hj
    refine ⟨⟨j - 1, by omega⟩, ?_⟩
    have heq : j - 1 + 1 = j := by omega
    show P (j - 1 + 1)
    rwa [heq]
  · rintro ⟨a, hP⟩
    refine ⟨a + 1, ?_, hP⟩
    rw [List.mem_range'_1]
    omega

theorem mem_replicas {r : String × Bool} :
    r ∈ replicas gcCount normalCount ↔ ∃ v : Fin gcCount ⊕ Fin normalCount, server v = r := by
  unfold replicas
  rw [List.mem_append, List.mem_map, List.mem_map, exists_mem_range'_iff,
    exists_mem_range'_iff, Sum.exists]
  rfl

/-! ## The simulation follows the graph -/

theorem parseIndex_append {i : Nat} (h : i < 2 ^ 64) (start : String) :
    parseIndex (start ++ toString i) start = some i := by
  have hdrop : (start ++ toString i).toList.dropPrefix? start.toList =
      some (Nat.toDigits 10 i) := by
    rw [dropPrefix?_iff, String.toList_append]
    exact congrArg _ Nat.toList_repr
  unfold parseIndex
  rw [hdrop, Option.bind_some, parseU64_toDigits h]

theorem gcIndex_eq_some {i : Nat} (hpos : 0 < gcCount) (hlt : gcCount < 2 ^ 64) (hi : 1 ≤ i) :
    gcIndex gcCount i = some ((i - 1) % gcCount + 1) := by
  have hturn := Nat.mod_lt (i - 1) hpos
  unfold gcIndex
  rw [sub_eq_some hi, Option.bind_eq_bind, Option.bind_some, rem_eq_some (Nat.ne_of_gt hpos),
    Option.bind_some]
  exact addU64_eq_some (by omega)

theorem computeConnectNodeIds_gcServer {i : Nat} (hpos : 0 < gcCount) (hlt : gcCount < 2 ^ 64)
    (hi : i < 2 ^ 64) :
    computeConnectNodeIds (gcServer i) true gcCount normalCount =
      some (AList.ofKeys (((List.range' 1 gcCount).filter fun j => j ≠ i).map gcServer ++
        ((List.range' 1 normalCount).filter fun k => (k - 1) % gcCount + 1 == i).map
          normalServer)) := by
  have hassigned : ((List.range' 1 normalCount).filterM fun k => do
      let gcIdx ← gcIndex gcCount k
      some (gcIdx == i)) =
        some ((List.range' 1 normalCount).filter fun k => (k - 1) % gcCount + 1 == i) := by
    apply filterM_eq_some
    intro k hk
    rw [List.mem_range'_1] at hk
    rw [gcIndex_eq_some hpos hlt hk.1]
    rfl
  unfold computeConnectNodeIds gcServer
  rw [if_pos rfl, parseIndex_append hi, Option.bind_eq_bind, Option.bind_some, hassigned]
  rfl

theorem computeConnectNodeIds_normalServer {i : Nat} (hpos : 0 < gcCount) (hlt : gcCount < 2 ^ 64)
    (hi : 1 ≤ i) (hi' : i < 2 ^ 64) :
    computeConnectNodeIds (normalServer i) false gcCount normalCount =
      some (AList.ofKeys [gcServer ((i - 1) % gcCount + 1)]) := by
  unfold computeConnectNodeIds normalServer
  rw [if_neg Bool.false_ne_true, parseIndex_append hi', Option.bind_eq_bind, Option.bind_some,
    gcIndex_eq_some hpos hlt hi]
  rfl

/-- The graph of the servers by position. -/
def overlay (normalCount : Nat) (hpos : 0 < gcCount) :
    SimpleGraph (Fin gcCount ⊕ Fin normalCount) :=
  HubGraph.hubGraph fun b => ⟨b % gcCount, Nat.mod_lt b hpos⟩

/-- The neighbours of a GC server as the code goes through them: the other GC servers, and the
normal ones that are assigned to it. -/
theorem exists_adj_gcServer_iff (hpos : 0 < gcCount) (a : Fin gcCount) (y : String) :
    (∃ w, (overlay normalCount hpos).Adj (.inl a) w ∧ (server w).1 = y) ↔
      (∃ j ∈ List.range' 1 gcCount, j ≠ a + 1 ∧ gcServer j = y) ∨
        ∃ k ∈ List.range' 1 normalCount, (k - 1) % gcCount + 1 = a + 1 ∧ normalServer k = y := by
  rw [exists_mem_range'_iff, exists_mem_range'_iff, Sum.exists]
  refine or_congr (exists_congr fun a' => and_congr_left fun _ => ?_)
    (exists_congr fun b => and_congr_left fun _ => ?_)
  · show a ≠ a' ↔ _
    rw [ne_comm, Ne, Fin.ext_iff, Ne, Nat.succ_inj]
  · show (⟨b % gcCount, Nat.mod_lt b hpos⟩ : Fin gcCount) = a ↔ _
    rw [Fin.ext_iff, Nat.add_sub_cancel, Nat.succ_inj]

theorem exists_adj_normalServer_iff (hpos : 0 < gcCount) (b : Fin normalCount) (y : String) :
    (∃ w, (overlay normalCount hpos).Adj (.inr b) w ∧ (server w).1 = y) ↔
    gcServer (b % gcCount + 1) = y := by
  rw [Sum.exists]
  constructor
  · rintro (⟨a, hadj, hy⟩ | ⟨b', hadj, -⟩)
    · obtain rfl : (⟨b % gcCount, Nat.mod_lt b hpos⟩ : Fin gcCount) = a := hadj
      exact hy
    · exact False.elim hadj
  · intro hy
    exact Or.inl ⟨⟨b % gcCount, Nat.mod_lt b hpos⟩, rfl, hy⟩

theorem computeConnectNodeIds_server (hpos : 0 < gcCount) (hgc : gcCount < 2 ^ 64)
    (hnormal : normalCount < 2 ^ 64) (v : Fin gcCount ⊕ Fin normalCount) :
    ∃ peers, computeConnectNodeIds (server v).1 (server v).2 gcCount normalCount = some peers ∧
      ∀ y, y ∈ peers ↔ ∃ w, (overlay normalCount hpos).Adj v w ∧ (server w).1 = y := by
  cases v with
  | inl a =>
    refine ⟨_, computeConnectNodeIds_gcServer hpos hgc (by omega), fun y => ?_⟩
    rw [exists_adj_gcServer_iff, AList.mem_ofKeys, List.mem_append, List.mem_map, List.mem_map]
    simp [and_assoc]
  | inr b =>
    refine ⟨_, computeConnectNodeIds_normalServer hpos hgc (by omega) (by omega), fun y => ?_⟩
    rw [exists_adj_normalServer_iff, AList.mem_ofKeys, List.mem_singleton,
      Nat.add_sub_cancel, eq_comm]

/-! ## The script follows the graph -/

/-- The mapping of the normal servers to their GC servers. -/
def roundRobin (gcCount normalCount : Nat) : HashMap String String :=
  AList.ofPairs
    ((List.range' 1 normalCount).map fun i => (normalServer i, gcServer ((i - 1) % gcCount + 1)))

theorem assignGcToNormal_eq_some (hpos : 0 < gcCount) :
    assignGcToNormal normalCount gcCount = some (roundRobin gcCount normalCount) := by
  have hitems : ((List.range' 1 normalCount).mapM fun i => do
      let turn ← rem (i - 1) gcCount
      some (normalServer i, gcServer (turn + 1))) =
        some ((List.range' 1 normalCount).map fun i =>
            (normalServer i, gcServer ((i - 1) % gcCount + 1))) := by
    apply mapM_eq_some
    intro i _
    rw [rem_eq_some (Nat.ne_of_gt hpos)]
    rfl
  unfold assignGcToNormal
  rw [hitems]
  rfl

theorem lookup_roundRobin {x y : String} : (roundRobin gcCount normalCount).lookup x = some y ↔
    ∃ k ∈ List.range' 1 normalCount, normalServer k = x ∧ gcServer ((k - 1) % gcCount + 1) = y := by
  unfold roundRobin
  rw [AList.lookup_ofPairs_iff]
  · simp
  · intro k v w hv hw
    rw [List.mem_map] at hv hw
    obtain ⟨i, -, hi⟩ := hv
    obtain ⟨j, -, hj⟩ := hw
    obtain ⟨hk, hgc⟩ := Prod.mk.inj hi
    obtain ⟨hk', hgc'⟩ := Prod.mk.inj hj
    obtain rfl := normalServer_injective (hk.trans hk'.symm)
    exact hgc.symm.trans hgc'

theorem mem_assignNormalsToGc {normalToGc : HashMap String String} {x gc : String} :
    x ∈ ((assignNormalsToGc normalToGc).lookup gc).getD [] ↔ normalToGc.lookup x = some gc := by
  have hrun : ∀ (items : List (String × String)) (m : HashMap String (List String)),
      x ∈ ((items.foldl (fun m e => m.upsert e.2 fun normals => normals.getD [] ++ [e.1]) m).lookup
        gc).getD [] ↔
        x ∈ (m.lookup gc).getD [] ∨ (x, gc) ∈ items := by
    intro items
    induction items with
    | nil => simp
    | cons e items ih =>
      intro m
      rw [List.foldl_cons, ih, AList.lookup_upsert, List.mem_cons, ← or_assoc]
      refine or_congr_left ?_
      by_cases hgc : gc = e.2
      · subst hgc
        simp [Prod.ext_iff]
      · simp [hgc, Prod.ext_iff]
  unfold assignNormalsToGc
  rw [hrun, List.mem_reverse, AList.mem_toPairs]
  simp

/-- What the script lists as the peers of a server. -/
def servicePeers (gcCount normalCount : Nat) : Fin gcCount ⊕ Fin normalCount → List String
  | .inl a =>
    ((assignNormalsToGc (roundRobin gcCount normalCount)).lookup (gcServer (a + 1))).getD [] ++
      ((List.range' 1 gcCount).filter fun j => j ≠ a.val + 1).map gcServer
  | .inr b => [gcServer (b % gcCount + 1)]

theorem mem_servicePeers_iff (hpos : 0 < gcCount) (v : Fin gcCount ⊕ Fin normalCount) (y : String) :
    y ∈ servicePeers gcCount normalCount v ↔ ∃ w, (overlay normalCount hpos).Adj v w ∧
    (server w).1 = y := by
  cases v with
  | inl a =>
    have hnormal : (∃ k ∈ List.range' 1 normalCount, normalServer k = y ∧
        gcServer ((k - 1) % gcCount + 1) = gcServer (a + 1)) ↔
          ∃ k ∈ List.range' 1 normalCount, (k - 1) % gcCount + 1 = a + 1 ∧ normalServer k = y := by
      refine exists_congr fun k => and_congr_right fun _ => ?_
      rw [gcServer_injective.eq_iff, and_comm]
    rw [exists_adj_gcServer_iff]
    unfold servicePeers
    rw [List.mem_append, mem_assignNormalsToGc, lookup_roundRobin, hnormal, or_comm, List.mem_map]
    simp [and_assoc]
  | inr b =>
    rw [exists_adj_normalServer_iff, eq_comm]
    exact List.mem_singleton

theorem services_server (hpos : 0 < gcCount) :
    ∃ peersOf, services normalCount gcCount = some peersOf ∧
      ∀ name peers, peersOf.lookup name = some peers ↔
        ∃ v, (server v).1 = name ∧ servicePeers gcCount normalCount v = peers := by
  have hpeer : ((List.range' 1 normalCount).mapM fun i => do
      let gcPeer ← (roundRobin gcCount normalCount).lookup (normalServer i)
      some (normalServer i, [gcPeer])) =
        some ((List.range' 1 normalCount).map fun i =>
            (normalServer i, [gcServer ((i - 1) % gcCount + 1)])) := by
    apply mapM_eq_some
    intro i hi
    rw [lookup_roundRobin.mpr ⟨i, hi, rfl, rfl⟩]
    rfl
  unfold services
  rw [assignGcToNormal_eq_some hpos, Option.bind_eq_bind, Option.bind_some, hpeer]
  refine ⟨_, rfl, fun name peers => ?_⟩
  have hmem : ∀ name peers, (name, peers) ∈
      ((List.range' 1 gcCount).map fun i => (gcServer i,
        ((assignNormalsToGc (roundRobin gcCount normalCount)).lookup (gcServer i)).getD [] ++
          ((List.range' 1 gcCount).filter fun j => j ≠ i).map gcServer)) ++
        ((List.range' 1 normalCount).map fun i =>
          (normalServer i, [gcServer ((i - 1) % gcCount + 1)])) ↔
      ∃ v, (server v).1 = name ∧ servicePeers gcCount normalCount v = peers := by
    intro name peers
    rw [List.mem_append, List.mem_map, List.mem_map, exists_mem_range'_iff,
      exists_mem_range'_iff, Sum.exists]
    simp only [Prod.mk.injEq]
    rfl
  rw [AList.lookup_ofPairs_iff, hmem]
  intro k v w hv hw
  obtain ⟨u, hu, rfl⟩ := (hmem k v).mp hv
  obtain ⟨u', hu', rfl⟩ := (hmem k w).mp hw
  rw [server_name_injective (hu.trans hu'.symm)]

/-! ## The graph of the names -/

/-- Server `x` of the experiment has `y` among its peers. -/
def Lists (gcCount normalCount : Nat) (x y : String) : Prop :=
  ∃ gcReplica peers, (x, gcReplica) ∈ replicas gcCount normalCount ∧
    computeConnectNodeIds x gcReplica gcCount normalCount = some peers ∧ y ∈ peers

/-- How many normal servers the GC server `j` lists. -/
def normalPeerCount (gcCount normalCount j : Nat) : Option Nat :=
  (computeConnectNodeIds (gcServer j) true gcCount normalCount).map fun peers =>
    (List.range' 1 normalCount).countP fun i => normalServer i ∈ peers

theorem lists_iff (hpos : 0 < gcCount) (hgc : gcCount < 2 ^ 64) (hnormal : normalCount < 2 ^ 64)
    {x y : String} :
    Lists gcCount normalCount x y ↔
      ∃ v w, (overlay normalCount hpos).Adj v w ∧ (server v).1 = x ∧ (server w).1 = y := by
  have hserver := computeConnectNodeIds_server hpos hgc hnormal
  constructor
  · rintro ⟨gcReplica, peers, hx, hpeers, hy⟩
    obtain ⟨v, hv⟩ := mem_replicas.mp hx
    obtain ⟨peers', hpeers', hmem⟩ := hserver v
    rw [hv] at hpeers'
    obtain rfl := Option.some.inj (hpeers.symm.trans hpeers')
    obtain ⟨w, hadj, hw⟩ := (hmem y).mp hy
    exact ⟨v, w, hadj, congrArg Prod.fst hv, hw⟩
  · rintro ⟨v, w, hadj, rfl, rfl⟩
    obtain ⟨peers, hpeers, hmem⟩ := hserver v
    exact ⟨(server v).2, peers, mem_replicas.mpr ⟨v, rfl⟩, hpeers, (hmem _).mpr ⟨w, hadj, rfl⟩⟩

theorem lists_symm (hpos : 0 < gcCount) (hgc : gcCount < 2 ^ 64) (hnormal : normalCount < 2 ^ 64)
    {x y : String} (h : Lists gcCount normalCount x y) : Lists gcCount normalCount y x := by
  rw [lists_iff hpos hgc hnormal] at h ⊢
  obtain ⟨v, w, hadj, hv, hw⟩ := h
  exact ⟨w, v, hadj.symm, hw, hv⟩

theorem not_lists_self (hpos : 0 < gcCount) (hgc : gcCount < 2 ^ 64)
    (hnormal : normalCount < 2 ^ 64) (x : String) :
    ¬ Lists gcCount normalCount x x := by
  rw [lists_iff hpos hgc hnormal]
  rintro ⟨v, w, hadj, hv, hw⟩
  exact hadj.ne (server_name_injective (hv.trans hw.symm))

theorem lists_connected (hpos : 0 < gcCount) (hgc : gcCount < 2 ^ 64)
    (hnormal : normalCount < 2 ^ 64) (v w : Fin gcCount ⊕ Fin normalCount) :
    Relation.ReflTransGen (Lists gcCount normalCount) (server v).1 (server w).1 := by
  have : Nonempty (Fin gcCount) := ⟨⟨0, hpos⟩⟩
  have hreach : (overlay normalCount hpos).Reachable v w := (HubGraph.connected _).preconnected v w
  rw [SimpleGraph.reachable_iff_reflTransGen] at hreach
  refine hreach.lift (fun u => (server u).1) fun u u' hadj => ?_
  exact (lists_iff hpos hgc hnormal).mpr ⟨u, u', hadj, rfl, rfl⟩

theorem normalServer_lists_iff (hpos : 0 < gcCount) (hgc : gcCount < 2 ^ 64)
    (hnormal : normalCount < 2 ^ 64) (b : Fin normalCount) (y : String) :
    Lists gcCount normalCount (normalServer (b + 1)) y ↔ y = gcServer (b % gcCount + 1) := by
  rw [lists_iff hpos hgc hnormal, eq_comm, ← exists_adj_normalServer_iff hpos]
  constructor
  · rintro ⟨v, w, hadj, hv, hw⟩
    obtain rfl : v = .inr b := server_name_injective hv
    exact ⟨w, hadj, hw⟩
  · rintro ⟨w, hadj, hw⟩
    exact ⟨.inr b, w, hadj, rfl, hw⟩

theorem normalPeerCount_eq_some (hpos : 0 < gcCount) (hgc : gcCount < 2 ^ 64)
    (hnormal : normalCount < 2 ^ 64) (a : Fin gcCount) :
    normalPeerCount gcCount normalCount (a + 1) =
      some (normalCount.count fun k => k % gcCount = a) := by
  obtain ⟨peers, hpeers, hmem⟩ := computeConnectNodeIds_server hpos hgc hnormal (.inl a)
  have hclass : ∀ k < normalCount, normalServer (k + 1) ∈ peers ↔ k % gcCount = a := by
    intro k hk
    rw [hmem]
    constructor
    · rintro ⟨w, hadj, hw⟩
      obtain rfl : w = .inr ⟨k, hk⟩ := server_name_injective hw
      exact congrArg Fin.val hadj
    · intro heq
      exact ⟨.inr ⟨k, hk⟩, Fin.ext heq, rfl⟩
  have hcount : (List.range' 1 normalCount).countP (fun i => normalServer i ∈ peers) =
      normalCount.count fun k => k % gcCount = a := by
    rw [List.range'_eq_map_range, List.countP_map, Nat.count]
    apply List.countP_congr
    intro k hk
    have hiff := hclass k (List.mem_range.mp hk)
    simp only [Function.comp_apply, Nat.add_comm 1 k, hiff]
  unfold normalPeerCount
  rw [show computeConnectNodeIds (gcServer (a + 1)) true gcCount normalCount =
    some peers from hpeers, Option.map_some,
    hcount]

end overlay

/-- The names of the servers of an experiment. -/
def serverNames (gcCount normalCount : Nat) : List String :=
  (replicas gcCount normalCount).map fun r => r.1

theorem mem_serverNames {gcCount normalCount : Nat} {x : String} :
    x ∈ serverNames gcCount normalCount ↔
    ∃ v : Fin gcCount ⊕ Fin normalCount, (server v).1 = x := by
  unfold serverNames
  rw [List.mem_map]
  constructor
  · rintro ⟨r, hr, rfl⟩
    obtain ⟨v, rfl⟩ := mem_replicas.mp hr
    exact ⟨v, rfl⟩
  · rintro ⟨v, rfl⟩
    exact ⟨server v, mem_replicas.mpr ⟨v, rfl⟩, rfl⟩

/-- No server of an experiment panics over its peers; who lists whom is a connected graph without
self-loops, in which each normal server has one GC server and the GC servers have equally many
normal ones but for one. The script gives each server the same peers. -/
theorem overlay_symmetric_balanced_connected (g n : Nat) (hpos : 1 ≤ g) (hg : g < 2 ^ 64)
    (hn : n < 2 ^ 64) :
    (∀ x gcReplica, (x, gcReplica) ∈ replicas g n →
      ∃ peers, computeConnectNodeIds x gcReplica g n = some peers) ∧
    (∀ x y, Lists g n x y → x ∈ serverNames g n ∧ y ∈ serverNames g n) ∧
    (∀ x y, Lists g n x y ↔ Lists g n y x) ∧
    (∀ x, ¬ Lists g n x x) ∧
    (∀ x ∈ serverNames g n, ∀ y ∈ serverNames g n, Relation.ReflTransGen (Lists g n) x y) ∧
    (∀ i, 1 ≤ i → i ≤ n → ∃ j, 1 ≤ j ∧ j ≤ g ∧ ∀ y, Lists g n (normalServer i) y ↔ y = gcServer j) ∧
    (∀ j k, 1 ≤ j → j ≤ g → 1 ≤ k → k ≤ g →
      ∃ a b, normalPeerCount g n j = some a ∧ normalPeerCount g n k = some b ∧ a ≤ b + 1) ∧
    ∃ peersOf, services n g = some peersOf ∧ (∀ x, x ∈ peersOf ↔ x ∈ serverNames g n) ∧
      ∀ x peers, peersOf.lookup x = some peers → ∀ y, y ∈ peers ↔ Lists g n x y := by
  have hlists : ∀ x y, Lists g n x y ↔ ∃ v w, (overlay n hpos).Adj v w ∧
      (server v).1 = x ∧ (server w).1 = y :=
    fun x y => lists_iff hpos hg hn
  refine ⟨?_, ?_, fun x y => ⟨lists_symm hpos hg hn, lists_symm hpos hg hn⟩,
    not_lists_self hpos hg hn, ?_, ?_, ?_, ?_⟩
  · intro x gcReplica hx
    obtain ⟨v, hv⟩ := mem_replicas.mp hx
    obtain ⟨peers, hpeers, -⟩ := computeConnectNodeIds_server hpos hg hn v
    rw [hv] at hpeers
    exact ⟨peers, hpeers⟩
  · intro x y h
    obtain ⟨v, w, -, hv, hw⟩ := (hlists x y).mp h
    exact ⟨mem_serverNames.mpr ⟨v, hv⟩, mem_serverNames.mpr ⟨w, hw⟩⟩
  · intro x hx y hy
    obtain ⟨v, rfl⟩ := mem_serverNames.mp hx
    obtain ⟨w, rfl⟩ := mem_serverNames.mp hy
    exact lists_connected hpos hg hn v w
  · intro i hi hle
    have hturn := Nat.mod_lt (i - 1) hpos
    refine ⟨(i - 1) % g + 1, by omega, by omega, fun y => ?_⟩
    have h := normalServer_lists_iff hpos hg hn ⟨i - 1, by omega⟩ y
    rwa [Nat.sub_add_cancel hi] at h
  · intro j k hj hjg hk hkg
    have hcount : ∀ i, 1 ≤ i → i ≤ g →
        normalPeerCount g n i = some (n.count fun k => k % g = i - 1) := by
      intro i hi hig
      have h := normalPeerCount_eq_some hpos hg hn ⟨i - 1, by omega⟩
      rwa [Nat.sub_add_cancel hi] at h
    exact ⟨_, _, hcount j hj hjg, hcount k hk hkg, HubGraph.count_mod_le (by omega) (by omega) n⟩
  · obtain ⟨peersOf, hservices, hlookup⟩ := @services_server g n hpos
    refine ⟨peersOf, hservices, fun x => ?_, fun x peers hpeers y => ?_⟩
    · rw [AList.mem_iff_lookup, mem_serverNames]
      constructor
      · rintro ⟨peers, hpeers⟩
        obtain ⟨v, hv, -⟩ := (hlookup x peers).mp hpeers
        exact ⟨v, hv⟩
      · rintro ⟨v, hv⟩
        exact ⟨_, (hlookup x _).mpr ⟨v, hv, rfl⟩⟩
    · obtain ⟨v, rfl, rfl⟩ := (hlookup x peers).mp hpeers
      rw [mem_servicePeers_iff hpos, hlists]
      constructor
      · rintro ⟨w, hadj, hw⟩
        exact ⟨v, w, hadj, rfl, hw⟩
      · rintro ⟨v', w, hadj, hv', hw⟩
        obtain rfl := server_name_injective hv'
        exact ⟨w, hadj, hw⟩

/-- Two GC servers and five normal ones. -/
theorem overlay_symmetric_balanced_connected_two_five :
    Lists 2 5 (gcServer 2) (normalServer 4) ∧ ∃ peersOf, services 5 2 = some peersOf ∧
      (∀ x, x ∈ peersOf ↔ x ∈ serverNames 2 5) ∧
      ∀ x peers, peersOf.lookup x = some peers → ∀ y, y ∈ peers ↔ Lists 2 5 x y := by
  refine ⟨?_,
    (overlay_symmetric_balanced_connected 2 5 (by decide) (by decide) (by decide)).2.2.2.2.2.2.2⟩
  refine ⟨true, _,
    by decide +kernel, computeConnectNodeIds_gcServer (by decide) (by decide) (by decide), ?_⟩
  decide +kernel

end Experiment

end ExperimentalCrdt
