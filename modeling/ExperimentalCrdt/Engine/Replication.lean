import ExperimentalCrdt.Crdt.Representation
import ExperimentalCrdt.Engine.CrdtEngine
import ExperimentalCrdt.Lib.Transition

/-!
# Replicas that exchange deltas

Engines that perform client operations, cut deltas for whatever knowledge, merge deltas, and reclaim
tombstones under whatever frontier. A delta that was cut stays available, so it may be merged late,
out of order, or twice. `performed` records the client operations with their dots; no step reads it.

`Sound` is the invariant of all runs: the dots that are stored or on their way are dots of recorded
adds, and no engine has counted fewer own operations than are recorded. So a new dot is new
everywhere, and every replica keeps its set clean, each dot with one element
(`orSet_representation`).
-/

namespace ExperimentalCrdt

open Transition (Reachable replay reachable_of_replay)

structure Replicas (E : Type) where
  nodes : AList fun id : NodeId => CrdtEngine E id
  inFlight : List (OrSetDelta E)
  performed : List (Dot × OrSetOp E)

inductive ReplicaLabel (E : Type) where
  | clientOperation (id : NodeId) (op : OrSetOp E)
  | deltaSince (id : NodeId) (remoteKnowledge : CausalContext)
  | fullState (id : NodeId)
  | mergeDelta (id : NodeId) (i : Nat)
  | performGc (id : NodeId) (frontier : DotVersionVector)

namespace Replicas

variable {E : Type} [DecidableEq E]

/-- Fresh replicas. -/
def start (crdtId : String) (members : HashMap NodeId Bool) : Replicas E :=
  { nodes := members.mapWithKey fun _ gcReplica => .new crdtId gcReplica,
    inFlight := [], performed := [] }

/-- Replace the engine `id`. -/
def setNode (c : Replicas E) (id : NodeId) (k : CrdtEngine E id) : Replicas E :=
  { c with nodes := c.nodes.insert id k }

/-- Reclaim the tombstones that `frontier` covers. -/
def collect {id : NodeId} (k : CrdtEngine E id) (frontier : DotVersionVector) : CrdtEngine E id :=
  { k with replica := { k.replica with crdt := k.replica.crdt.performGc frontier } }

def step (c : Replicas E) : ReplicaLabel E → Option (Replicas E)
  | .clientOperation id op => do
    let k ← c.nodes.lookup id
    some { c.setNode id (k.clientOperation ∅ none op).1 with
      performed := c.performed ++ [(k.nextDot, op)] }
  | .deltaSince id remoteKnowledge => do
    let k ← c.nodes.lookup id
    some { c with
      inFlight := c.inFlight ++ [k.replica.crdt.deltaSince remoteKnowledge k.replica.dvv] }
  | .fullState id => do
    let k ← c.nodes.lookup id
    some { c with inFlight := c.inFlight ++ [k.replica.crdt.fullState k.replica.dvv] }
  | .mergeDelta id i => do
    let k ← c.nodes.lookup id
    let delta ← c.inFlight[i]?
    some (c.setNode id (k.mergeDelta delta))
  | .performGc id frontier => do
    let k ← c.nodes.lookup id
    some (c.setNode id (collect k frontier))

/-! ## The invariant -/

/-- The given adds and tombstones are about recorded adds. -/
structure Backed (performed : List (Dot × OrSetOp E)) (adds : E → Dot → Prop) (tombs : Dot → Prop) :
    Prop where
  adds_recorded : ∀ e a, adds e a → (a, .add e) ∈ performed
  tombs_recorded : ∀ a, tombs a → ∃ e, (a, .add e) ∈ performed

structure Sound (c : Replicas E) : Prop where
  counted : ∀ id k, c.nodes.lookup id = some k →
    ∀ p ∈ c.performed, p.1.nodeId = id → p.1.counter ≤ k.replica.dvv.dot.counter
  unique : ∀ p ∈ c.performed, ∀ p' ∈ c.performed, p.1 = p'.1 → p = p'
  stored : ∀ id k, c.nodes.lookup id = some k →
    Backed c.performed k.replica.crdt.HasAdd (· ∈ k.replica.crdt.tombstones)
  inFlight : ∀ δ ∈ c.inFlight,
    Backed c.performed (fun e a => (e, a) ∈ δ.adds) fun a => ∃ r, (a, r) ∈ δ.tombstones
  clean : ∀ id k, c.nodes.lookup id = some k → k.replica.crdt.Clean

omit [DecidableEq E] in
theorem Backed.grow {performed performed' : List (Dot × OrSetOp E)} {adds : E → Dot → Prop}
    {tombs : Dot → Prop} (h : Backed performed adds tombs) (hsub : performed ⊆ performed') :
    Backed performed' adds tombs where
  adds_recorded e a ha := hsub (h.adds_recorded e a ha)
  tombs_recorded a ha := by
    obtain ⟨e, he⟩ := h.tombs_recorded a ha
    exact ⟨e, hsub he⟩

theorem sound_start (crdtId : String) (members : HashMap NodeId Bool) :
    (start crdtId members : Replicas E).Sound := by
  have hnew : ∀ id k, (start crdtId members : Replicas E).nodes.lookup id = some k →
      k.replica.crdt = OrSet.new := by
    intro id k hk
    unfold start at hk
    rw [AList.lookup_mapWithKey] at hk
    obtain ⟨gcReplica, -, rfl⟩ := Option.map_eq_some_iff.mp hk
    rfl
  refine ⟨fun id k hk p hp => absurd hp List.not_mem_nil, fun p hp => absurd hp List.not_mem_nil,
    fun id k hk => ?_,
    fun δ hδ => absurd hδ List.not_mem_nil, fun id k hk => ?_⟩
  · rw [hnew id k hk]
    exact ⟨fun e a h => absurd h (OrSet.not_hasAdd_new e a),
      fun a h => absurd h (AList.notMem_empty a)⟩
  · rw [hnew id k hk]
    exact OrSet.Clean.new

namespace Sound

variable {c c' : Replicas E} {id : NodeId} {k k' : CrdtEngine E id}

theorem oneElement (h : c.Sound) (hk : c.nodes.lookup id = some k) : k.replica.crdt.OneElement := by
  intro e e' a ha ha'
  have hadd := (h.stored id k hk).adds_recorded e a ha
  have hadd' := (h.stored id k hk).adds_recorded e' a ha'
  have heq := h.unique _ hadd _ hadd' rfl
  exact OrSetOp.add.inj (Prod.mk.inj heq).2

/-- The dot of the next operation is not recorded. -/
theorem nextDot_fresh (h : c.Sound) (hk : c.nodes.lookup id = some k) :
    ∀ p ∈ c.performed, p.1 ≠ k.nextDot := by
  intro p hp heq
  have hle := h.counted id k hk p hp ((congrArg Dot.nodeId heq).trans k.replica.dvv_owner)
  have hcounter : p.1.counter = k.replica.dvv.dot.counter + 1 := congrArg Dot.counter heq
  omega

theorem nextDot_notMem_tombstones (h : c.Sound) (hk : c.nodes.lookup id = some k) :
    k.nextDot ∉ k.replica.crdt.tombstones := by
  intro hmem
  obtain ⟨e, he⟩ := (h.stored id k hk).tombs_recorded _ hmem
  exact h.nextDot_fresh hk _ he rfl

omit [DecidableEq E] in
theorem forall_setNode {P : ∀ id, CrdtEngine E id → Prop} (hnew : P id k')
    (hold : ∀ p q, p ≠ id → c.nodes.lookup p = some q → P p q) :
    ∀ p q, (c.setNode id k').nodes.lookup p = some q → P p q := by
  intro p q hq
  by_cases hp : p = id
  · subst hp
    obtain rfl := Option.some.inj ((AList.lookup_insert c.nodes).symm.trans hq)
    exact hnew
  · exact hold p q hp ((AList.lookup_insert_ne hp).symm.trans hq)

theorem update (h : c.Sound) (hk : c.nodes.lookup id = some k) (extra : List (Dot × OrSetOp E))
    (hle : k.replica.dvv.dot.counter ≤ k'.replica.dvv.dot.counter)
    (hextra : ∀ p ∈ extra, p.1.counter ≤ k'.replica.dvv.dot.counter ∧ p.1.nodeId = id)
    (hunique : ∀ p ∈ c.performed ++ extra, ∀ p' ∈ c.performed ++ extra, p.1 = p'.1 → p = p')
    (hbacked : Backed (c.performed ++ extra) k'.replica.crdt.HasAdd
      (· ∈ k'.replica.crdt.tombstones))
    (hclean : k'.replica.crdt.Clean) :
    Sound { c.setNode id k' with performed := c.performed ++ extra } := by
  have hsub : c.performed ⊆ c.performed ++ extra := List.subset_append_left _ _
  refine ⟨forall_setNode ?_ ?_, hunique,
    forall_setNode hbacked fun p q _ hq => (h.stored p q hq).grow hsub,
    fun δ hδ => (h.inFlight δ hδ).grow hsub, forall_setNode hclean fun p q _ hq => h.clean p q hq⟩
  · intro r hr hid
    rcases List.mem_append.mp hr with hr | hr
    · exact Nat.le_trans (h.counted id k hk r hr hid) hle
    · exact (hextra r hr).1
  · intro p q hp hq r hr hid
    rcases List.mem_append.mp hr with hr | hr
    · exact h.counted p q hq r hr hid
    · exact absurd (hid.symm.trans (hextra r hr).2) hp

theorem setNode (h : c.Sound) (hk : c.nodes.lookup id = some k)
    (hle : k.replica.dvv.dot.counter ≤ k'.replica.dvv.dot.counter)
    (hbacked : Backed c.performed k'.replica.crdt.HasAdd (· ∈ k'.replica.crdt.tombstones))
    (hclean : k'.replica.crdt.Clean) : (c.setNode id k').Sound := by
  have hupdate := h.update hk [] hle (fun p hp => absurd hp List.not_mem_nil)
  rw [List.append_nil] at hupdate
  exact hupdate h.unique hbacked hclean

theorem clientOperation (h : c.Sound) (hk : c.nodes.lookup id = some k) (op : OrSetOp E) :
    Sound { c.setNode id (k.clientOperation ∅ none op).1 with
      performed := c.performed ++ [(k.nextDot, op)] } := by
  have hfresh := h.nextDot_fresh hk
  have hback := (h.stored id k hk).grow (List.subset_append_left c.performed [(k.nextDot, op)])
  refine h.update hk [(k.nextDot, op)] ?_ ?_ ?_ ?_ ?_
  · exact Nat.le_succ _
  · intro p hp
    obtain rfl := List.mem_singleton.mp hp
    exact ⟨Nat.le_refl _, k.replica.dvv_owner⟩
  · intro p hp p' hp' heq
    rcases List.mem_append.mp hp with hp | hp <;> rcases List.mem_append.mp hp' with hp' | hp'
    · exact h.unique p hp p' hp' heq
    · obtain rfl := List.mem_singleton.mp hp'
      exact absurd heq (hfresh p hp)
    · obtain rfl := List.mem_singleton.mp hp
      exact absurd heq.symm (hfresh p' hp')
    · rw [List.mem_singleton.mp hp, List.mem_singleton.mp hp']
  · cases op with
    | add x =>
      refine ⟨fun e a ha => ?_, hback.tombs_recorded⟩
      rcases (k.replica.crdt.hasAdd_applyLocal_add e x a k.nextDot).mp ha with ha | ⟨rfl, rfl⟩
      · exact hback.adds_recorded e a ha
      · exact List.mem_append_right _ List.mem_cons_self
    | remove x =>
      refine ⟨fun e a ha => ?_, fun a ha => ?_⟩
      · exact hback.adds_recorded e a
          ((k.replica.crdt.hasAdd_applyLocal_remove e x a k.nextDot).mp ha).1
      · obtain ⟨r, hr⟩ := AList.mem_iff_lookup.mp ha
        rcases (k.replica.crdt.lookup_tombstones_applyLocal_remove x a k.nextDot r).mp hr
          with ⟨hx, -⟩ | ⟨-, hr⟩
        · exact ⟨x, hback.adds_recorded x a hx⟩
        · exact hback.tombs_recorded a (AList.mem_of_lookup hr)
  · cases op with
    | add x => exact (h.clean id k hk).add (h.nextDot_notMem_tombstones hk)
    | remove x => exact (h.clean id k hk).remove (h.oneElement hk)

theorem mergeDelta (h : c.Sound) (hk : c.nodes.lookup id = some k) {delta : OrSetDelta E}
    (hdelta : delta ∈ c.inFlight) : (c.setNode id (k.mergeDelta delta)).Sound := by
  refine h.setNode hk (k.replica.dvv.dotCounter_le_merge delta.causalContext)
    ⟨fun e a ha => ?_, fun a ha => ?_⟩
    ((h.clean id k hk).mergeDelta delta)
  · rcases (k.replica.crdt.hasAdd_mergeDelta e a delta).mp ha with ⟨hold, -⟩ | ⟨hnew, -⟩
    · exact (h.stored id k hk).adds_recorded e a hold
    · exact (h.inFlight delta hdelta).adds_recorded e a hnew
  · rcases (k.replica.crdt.mem_tombstones_mergeDelta a delta).mp ha with hnew | hold
    · exact (h.inFlight delta hdelta).tombs_recorded a hnew
    · exact (h.stored id k hk).tombs_recorded a hold

theorem performGc (h : c.Sound) (hk : c.nodes.lookup id = some k) (frontier : DotVersionVector) :
    (c.setNode id (collect k frontier)).Sound := by
  refine h.setNode hk (Nat.le_refl _) ⟨(h.stored id k hk).adds_recorded, fun a ha => ?_⟩
    ((h.clean id k hk).performGc frontier)
  obtain ⟨r, hr⟩ := AList.mem_iff_lookup.mp ha
  have hold := ((k.replica.crdt.lookup_tombstones_performGc a r frontier).mp hr).1
  exact (h.stored id k hk).tombs_recorded a (AList.mem_of_lookup hold)

theorem send (h : c.Sound) {δ : OrSetDelta E}
    (hδ : Backed c.performed (fun e a => (e, a) ∈ δ.adds) fun a => ∃ r, (a, r) ∈ δ.tombstones) :
    Sound { c with inFlight := c.inFlight ++ [δ] } := by
  refine ⟨h.counted, h.unique, h.stored, fun δ' hδ' => ?_, h.clean⟩
  rcases List.mem_append.mp hδ' with hδ' | hδ'
  · exact h.inFlight δ' hδ'
  · obtain rfl := List.mem_singleton.mp hδ'
    exact hδ

theorem deltaSince (h : c.Sound) (hk : c.nodes.lookup id = some k) (K : CausalContext) :
    Sound { c with inFlight := c.inFlight ++ [k.replica.crdt.deltaSince K k.replica.dvv] } := by
  refine h.send ⟨fun e a ha => ?_, fun a ha => ?_⟩
  · exact (h.stored id k hk).adds_recorded e a
      ((k.replica.crdt.mem_adds_deltaSince e a K _).mp ha).1
  · obtain ⟨r, hr⟩ := ha
    have hold := ((k.replica.crdt.mem_tombstones_deltaSince a r K _).mp hr).1
    exact (h.stored id k hk).tombs_recorded a (AList.mem_of_lookup hold)

theorem fullState (h : c.Sound) (hk : c.nodes.lookup id = some k) :
    Sound { c with inFlight := c.inFlight ++ [k.replica.crdt.fullState k.replica.dvv] } := by
  refine h.send ⟨fun e a ha => ?_, fun a ha => ?_⟩
  · exact (h.stored id k hk).adds_recorded e a ((k.replica.crdt.mem_adds_fullState e a _).mp ha)
  · obtain ⟨r, hr⟩ := ha
    have hold := (k.replica.crdt.mem_tombstones_fullState a r _).mp hr
    exact (h.stored id k hk).tombs_recorded a (AList.mem_of_lookup hold)

theorem step (h : c.Sound) {l : ReplicaLabel E} (hstep : c.step l = some c') : c'.Sound := by
  cases l with
  | clientOperation id op =>
    obtain ⟨k, hk, hc⟩ := Option.bind_eq_some_iff.mp hstep
    obtain rfl := Option.some.inj hc
    exact h.clientOperation hk op
  | deltaSince id remoteKnowledge =>
    obtain ⟨k, hk, hc⟩ := Option.bind_eq_some_iff.mp hstep
    obtain rfl := Option.some.inj hc
    exact h.deltaSince hk remoteKnowledge
  | fullState id =>
    obtain ⟨k, hk, hc⟩ := Option.bind_eq_some_iff.mp hstep
    obtain rfl := Option.some.inj hc
    exact h.fullState hk
  | mergeDelta id i =>
    obtain ⟨k, hk, hc⟩ := Option.bind_eq_some_iff.mp hstep
    obtain ⟨delta, hdelta, hc⟩ := Option.bind_eq_some_iff.mp hc
    obtain rfl := Option.some.inj hc
    exact h.mergeDelta hk (List.mem_of_getElem? hdelta)
  | performGc id frontier =>
    obtain ⟨k, hk, hc⟩ := Option.bind_eq_some_iff.mp hstep
    obtain rfl := Option.some.inj hc
    exact h.performGc hk frontier

end Sound

theorem sound_of_reachable {crdtId : String} {members : HashMap NodeId Bool} {c : Replicas E}
    (h : Reachable step (fun _ _ => True) (start crdtId members) c) : c.Sound :=
  h.invariant (sound_start crdtId members) fun _ _ _ _ hsound _ hstep => hsound.step hstep

/-- **The representation of every replica's set**, in every run of the replicas: it is clean, each
dot is with one element, readers need no tombstones, reclaiming tombstones changes nothing that they
see, and a client operation changes the visibility of its own element only. -/
theorem orSet_representation (crdtId : String) (members : HashMap NodeId Bool) (c : Replicas E)
    (h : Reachable step (fun _ _ => True) (start crdtId members) c) (id : NodeId)
    (k : CrdtEngine E id) (hk : c.nodes.lookup id = some k) :
    let s := k.replica.crdt
    (∀ e a, s.HasAdd e a → a ∉ s.tombstones) ∧
      (∀ e dots, s.adds.lookup e = some dots → dots ≠ ∅) ∧
      (∀ e e' a, s.HasAdd e a → s.HasAdd e' a → e = e') ∧
      (∀ e, s.contains e = true ↔ e ∈ s.adds) ∧
      (s.elements.Nodup ∧ ∀ e, e ∈ s.elements ↔ s.contains e = true) ∧
      s.len = s.adds.keys.length ∧
      (∀ frontier e, (s.performGc frontier).contains e = s.contains e) ∧
      (∀ registry choice x e,
        (k.clientOperation registry choice (.add x)).1.replica.crdt.contains e = true ↔
        e = x ∨ s.contains e = true) ∧
      ∀ registry choice x e,
        (k.clientOperation registry choice (.remove x)).1.replica.crdt.contains e = true ↔
        e ≠ x ∧ s.contains e = true := by
  intro s
  have hsound := sound_of_reachable h
  have hclean : s.Clean := hsound.clean id k hk
  have hone : s.OneElement := hsound.oneElement hk
  refine ⟨hclean.untombstoned, fun e dots hl hempty => ?_, hone, fun e => hclean.contains_iff,
    ⟨hclean.nodup_elements, s.mem_elements⟩, hclean.len_eq,
      fun frontier e => hclean.contains_performGc frontier,
    fun registry choice x e => hclean.contains_add (hsound.nextDot_notMem_tombstones hk),
    fun registry choice x e => hclean.contains_remove hone⟩
  obtain ⟨a, dots', hl', ha⟩ := hclean.inhabited e (AList.mem_of_lookup hl)
  rw [hl] at hl'
  obtain rfl := Option.some.inj hl'
  rw [hempty] at ha
  exact AList.notMem_empty a ha

/-- `B` removes what it has from `A`, reclaims the tombstone, and merges the old delta once more. -/
def staleDelta : List (ReplicaLabel String) :=
  [.clientOperation "A" (.add "x"), .fullState "A", .mergeDelta "B" 0,
   .clientOperation "B" (.remove "x"),
   .performGc "B" (frontierDvv "B" (AList.ofPairs [("B", 1)])), .mergeDelta "B" 0]

/-- The element is back, and `B` still keeps its set in order. -/
theorem orSet_representation_staleDelta :
    ∃ (c : Replicas String) (b : CrdtEngine String "B"),
      replay step (fun _ _ => True) (start "s" (AList.ofPairs [("A", false), ("B", false)]))
        staleDelta = some c ∧
      c.nodes.lookup "B" = some b ∧ b.replica.crdt.contains "x" = true ∧
      ∀ e a, b.replica.crdt.HasAdd e a → a ∉ b.replica.crdt.tombstones := by
  have hrun : ((replay step (fun _ _ => True)
      (start "s" (AList.ofPairs [("A", false), ("B", false)]) : Replicas String) staleDelta).bind
          fun c =>
        (c.nodes.lookup "B").map fun b => b.replica.crdt.contains "x") = some true :=
          by decide +kernel
  obtain ⟨c, hc, hrun⟩ := Option.bind_eq_some_iff.mp hrun
  obtain ⟨b, hb, hx⟩ := Option.map_eq_some_iff.mp hrun
  exact ⟨c, b, hc, hb, hx,
    (orSet_representation "s" _ c (reachable_of_replay _ .start hc) "B" b hb).1⟩

end Replicas

end ExperimentalCrdt
