import ExperimentalCrdt.Cluster.Data
import ExperimentalCrdt.Cluster.Leftovers
import ExperimentalCrdt.Cluster.Reclamation
import ExperimentalCrdt.Engine.Answers

/-!
# The nothing-to-send fast path

The engine decides from the vector alone that it has nothing to send, while the delta is cut from
the dots in the set. The two agree for every requester exactly when the vector counts every stored
dot (`fast_path_agrees_iff`), and all operations keep it so but one: an epoch that makes the vector
forget a node whose dots the set still holds (`forgotten_dot_not_sent`). In the runs in which no
replica holds a dot of a node that it forgets, the fast path agrees with the delta in every state
(`fast_path_agrees`).
-/

namespace ExperimentalCrdt

open Transition (Reachable replay reachable_of_replay)

variable {E : Type} {id : NodeId} [DecidableEq E]

/-! ## Stored dots -/

namespace OrSet

variable (s : OrSet E) (K : CausalContext) (dvv : DotVersionVector)

/-- The dots by which a delta is filtered: the add-dots, and the remove-dots of the tombstones. -/
def storedDots : List Dot :=
  (s.adds.entries.flatMap fun e => e.2.keys) ++ s.tombstones.toPairs.map fun t => t.2

theorem mem_storedDots {d : Dot} :
    d ∈ s.storedDots ↔ (∃ e, s.HasAdd e d) ∨ ∃ a, s.tombstones.lookup a = some d := by
  simp only [storedDots, List.mem_append, List.mem_flatMap, List.mem_map, HasAdd]
  refine or_congr ?_ ?_
  · constructor
    · rintro ⟨⟨e, dots⟩, he, hd⟩
      exact ⟨e, dots, AList.mem_lookup_iff.mpr he, AList.mem_keys.mpr hd⟩
    · rintro ⟨e, dots, hl, hd⟩
      exact ⟨⟨e, dots⟩, AList.mem_lookup_iff.mp hl, AList.mem_keys.mp hd⟩
  · constructor
    · rintro ⟨⟨a, d⟩, ht, rfl⟩
      exact ⟨a, AList.mem_toPairs.mp ht⟩
    · rintro ⟨a, ht⟩
      exact ⟨(a, d), AList.mem_toPairs.mpr ht, rfl⟩

theorem deltaSince_empty_iff :
    ((s.deltaSince K dvv).adds = [] ∧ (s.deltaSince K dvv).tombstones = []) ↔
      ∀ d ∈ s.storedDots, d.counter ≤ counterAt K d.nodeId := by
  simp only [List.eq_nil_iff_forall_not_mem, Prod.forall, mem_adds_deltaSince,
    mem_tombstones_deltaSince,
    mem_storedDots, not_and, Nat.not_lt]
  constructor
  · rintro ⟨hadds, htombs⟩ d (⟨e, he⟩ | ⟨a, ha⟩)
    · exact hadds e d he
    · exact htombs a d ha
  · intro h
    exact ⟨fun e d he => h d (Or.inl ⟨e, he⟩), fun a d ha => h d (Or.inr ⟨a, ha⟩)⟩

end OrSet

/-- The vector counts every stored dot. -/
def Replica.Counted (r : Replica E id) : Prop :=
  ∀ d ∈ r.crdt.storedDots, d.counter ≤ r.dvv.comparedCounter d.nodeId

/-- **The fast path agrees with the delta for every requester exactly when** the vector counts every
stored dot. -/
theorem fast_path_agrees_iff (engine : CrdtEngine E id) :
    (∀ registry fromNode K, engine.deltaPayload registry fromNode K = none →
        (engine.replica.crdt.deltaSince K engine.replica.dvv).adds = [] ∧
          (engine.replica.crdt.deltaSince K engine.replica.dvv).tombstones = []) ↔
      engine.replica.Counted := by
  constructor
  · intro h
    -- a requester that knows just what is compared
    let K := engine.replica.dvv.context.insert engine.replica.dvv.dot.nodeId
      engine.replica.dvv.dot.counter
    have hK : ∀ n, counterAt K n = engine.replica.dvv.comparedCounter n :=
      fun n => counterAt_insert _ _ _ _
    have hempty := h ∅ id K ((engine.deltaPayload_eq_none_iff ∅ id K).mpr
      ⟨by simp [CrdtEngine.forced, CrdtEngine.isGcPeer], fun n => (hK n).ge⟩)
    intro d hd
    rw [← hK]
    exact (engine.replica.crdt.deltaSince_empty_iff K engine.replica.dvv).mp hempty d hd
  · intro h registry fromNode K hnone
    obtain ⟨-, hle⟩ := (engine.deltaPayload_eq_none_iff registry fromNode K).mp hnone
    exact (engine.replica.crdt.deltaSince_empty_iff K engine.replica.dvv).mpr
      fun d hd => Nat.le_trans (h d hd) (hle d.nodeId)

/-! ## What keeps the dots counted -/

/-- The causal context of a delta counts every dot it carries. -/
def OrSetDelta.Counted (delta : OrSetDelta E) : Prop :=
  (∀ a ∈ delta.adds, a.2.counter ≤ delta.causalContext.effectiveCounter a.2.nodeId) ∧
    ∀ t ∈ delta.tombstones, t.2.counter ≤ delta.causalContext.effectiveCounter t.2.nodeId

/-- The clock of a snapshot counts every dot of its payload. -/
def EpochState.Counted (epochState : EpochState E) : Prop :=
  (∀ a ∈ epochState.statePayload.adds, a.2.counter ≤
    counterAt epochState.initiatorClock a.2.nodeId) ∧
    ∀ t ∈ epochState.statePayload.tombstones,
      t.2.counter ≤ counterAt epochState.initiatorClock t.2.nodeId

namespace OrSet

variable (s : OrSet E)

theorem storedDots_mergeDelta {delta : OrSetDelta E} {d : Dot}
    (h : d ∈ (s.mergeDelta delta).storedDots) :
    d ∈ s.storedDots ∨ (∃ a ∈ delta.adds, a.2 = d) ∨ ∃ t ∈ delta.tombstones, t.2 = d := by
  rcases (s.mergeDelta delta).mem_storedDots.mp h with ⟨e, he⟩ | ⟨a, ha⟩
  · rcases (s.hasAdd_mergeDelta e d delta).mp he with ⟨hold, -⟩ | ⟨hnew, -⟩
    · exact Or.inl (s.mem_storedDots.mpr (Or.inl ⟨e, hold⟩))
    · exact Or.inr (Or.inl ⟨(e, d), hnew, rfl⟩)
  · rw [tombstones_mergeDelta] at ha
    rcases AList.lookup_foldl_insert_some ha with hnew | hold
    · exact Or.inr (Or.inr ⟨(a, d), hnew, rfl⟩)
    · exact Or.inl (s.mem_storedDots.mpr (Or.inr ⟨a, hold⟩))

theorem storedDots_applyLocal {op : OrSetOp E} {dot d : Dot}
    (h : d ∈ (s.applyLocal dot op).storedDots) :
    d ∈ s.storedDots ∨ d = dot := by
  rw [mem_storedDots] at h
  rw [mem_storedDots]
  cases op with
  | add x =>
    rcases h with ⟨e, he⟩ | ⟨a, ha⟩
    · rcases (s.hasAdd_applyLocal_add e x d dot).mp he with hold | ⟨-, hnew⟩
      · exact Or.inl (Or.inl ⟨e, hold⟩)
      · exact Or.inr hnew
    · exact Or.inl (Or.inr ⟨a, ha⟩)
  | remove x =>
    rcases h with ⟨e, he⟩ | ⟨a, ha⟩
    · exact Or.inl (Or.inl ⟨e, ((s.hasAdd_applyLocal_remove e x d dot).mp he).1⟩)
    · rcases (s.lookup_tombstones_applyLocal_remove x a dot d).mp ha with ⟨-, hnew⟩ | ⟨-, hold⟩
      · exact Or.inr hnew
      · exact Or.inl (Or.inr ⟨a, hold⟩)

theorem storedDots_performGc {frontier : DotVersionVector} {d : Dot}
    (h : d ∈ (s.performGc frontier).storedDots) : d ∈ s.storedDots := by
  rw [mem_storedDots] at h
  rw [mem_storedDots]
  rcases h with ⟨e, he⟩ | ⟨a, ha⟩
  · exact Or.inl ⟨e, he⟩
  · exact Or.inr ⟨a, ((s.lookup_tombstones_performGc a d frontier).mp ha).1⟩

end OrSet

namespace Replica

variable {r : Replica E id}

theorem Counted.merge (h : r.Counted) {delta : OrSetDelta E} {clock : DotVersionVector}
    (hadds : ∀ a ∈ delta.adds, a.2.counter ≤ clock.effectiveCounter a.2.nodeId)
    (htombs : ∀ t ∈ delta.tombstones, t.2.counter ≤ clock.effectiveCounter t.2.nodeId) :
    ∀ d ∈ (r.crdt.mergeDelta delta).storedDots,
      d.counter ≤ (r.dvv.merge clock).comparedCounter d.nodeId := by
  intro d hd
  rw [DotVersionVector.comparedCounter_merge]
  rcases r.crdt.storedDots_mergeDelta hd with hold | ⟨a, ha, rfl⟩ | ⟨t, ht, rfl⟩
  · exact Nat.le_trans (h d hold) (Nat.le_max_left _ _)
  · exact Nat.le_trans (hadds a ha) (Nat.le_max_right _ _)
  · exact Nat.le_trans (htombs t ht) (Nat.le_max_right _ _)

/-- The replica holds no dot of a node that it is about to forget, other than itself. -/
def AvoidsForgotten (r : Replica E id) (vStable : CausalContext) (obsolete : HashSet NodeId) :
    Prop :=
  ∀ d ∈ (r.performGc vStable).crdt.storedDots, d.nodeId ∈ obsolete → d.nodeId = id

instance (r : Replica E id) (vStable : CausalContext) (obsolete : HashSet NodeId) :
    Decidable (r.AvoidsForgotten vStable obsolete) :=
  inferInstanceAs (Decidable (∀ d ∈ (r.performGc vStable).crdt.storedDots, _))

theorem Counted.forget (h : r.Counted) {vStable : CausalContext} {obsolete : HashSet NodeId}
    (havoids : r.AvoidsForgotten vStable obsolete) :
    ∀ d ∈ (r.performGc vStable).crdt.storedDots,
      d.counter ≤ (r.forgetNodes obsolete).dvv.comparedCounter d.nodeId := by
  intro d hd
  have hold : d.counter ≤ r.dvv.comparedCounter d.nodeId := h d (r.crdt.storedDots_performGc hd)
  unfold DotVersionVector.comparedCounter at hold ⊢
  rw [forgetNodes_dot]
  split
  · next hown => rwa [if_pos hown] at hold
  · next hown =>
    rw [if_neg hown] at hold
    have hkept : d.nodeId ∉ obsolete.keys := by
      intro hmem
      exact hown ((havoids d hd (AList.mem_keys.mpr hmem)).trans r.dvv_owner.symm)
    rw [forgetNodes_context, counterAt_removeNodes, if_neg hkept]
    exact hold

end Replica

theorem countedRules :
    DataRules (fun _ (r : Replica E _) => r.Counted) OrSetDelta.Counted EpochState.Counted where
  new id gcReplica := by
    intro d hd
    cases hd
  gc id r gc h := h
  clientOperation id engine registry choice op h := by
    intro d hd
    show d.counter ≤ engine.replica.dvv.event.comparedCounter d.nodeId
    rw [DotVersionVector.comparedCounter_event]
    rcases engine.replica.crdt.storedDots_applyLocal hd with hold | rfl
    · have hle : d.counter ≤ engine.replica.dvv.comparedCounter d.nodeId := h d hold
      split
      · next hown =>
        rw [DotVersionVector.comparedCounter, if_pos hown] at hle
        omega
      · exact hle
    · rw [if_pos (show engine.nextDot.nodeId = engine.replica.dvv.dot.nodeId from rfl)]
      exact Nat.le_refl _
  mergeDelta id engine delta h hdelta := h.merge hdelta.1 hdelta.2
  deltaSince id r K h := by
    have hcounted : ∀ d ∈ r.crdt.storedDots,
        d.counter ≤ (r.crdt.deltaSince K r.dvv).causalContext.effectiveCounter d.nodeId := by
      intro d hd
      rw [OrSet.effectiveCounter_causalContext]
      exact Nat.le_trans (h d hd) (r.dvv.comparedCounter_le_effectiveCounter d.nodeId)
    constructor
    · rintro ⟨e, a⟩ ha
      exact hcounted a
        (r.crdt.mem_storedDots.mpr (Or.inl ⟨e, ((r.crdt.mem_adds_deltaSince e a K r.dvv).mp ha).1⟩))
    · rintro ⟨a, d⟩ hd
      exact hcounted d (r.crdt.mem_storedDots.mpr
        (Or.inr ⟨a, ((r.crdt.mem_tombstones_deltaSince a d K r.dvv).mp hd).1⟩))
  adopt id r epochState currentEpoch h hstate := by
    apply h.merge
    · intro a ha
      rw [DotVersionVector.effectiveCounter_frontierDvv]
      exact hstate.1 a ha
    · intro t ht
      rw [DotVersionVector.effectiveCounter_frontierDvv]
      exact hstate.2 t ht
  nothing := ⟨fun a ha => (List.not_mem_nil ha).elim, fun t ht => (List.not_mem_nil ht).elim⟩

/-! ## Forgetting nodes -/

theorem Replica.Counted.observe {r : Replica E id} (h : r.Counted) {m : EpochMetadata}
    (havoids : m.epoch ≤ r.gc.epoch ∨ r.AvoidsForgotten m.vStable m.obsoleteDots) :
    (r.observeEpochChange m).Counted := by
  unfold Replica.observeEpochChange
  split
  · exact h
  · next hlt =>
    intro d hd
    rw [Replica.forgetNodes_crdt] at hd
    have hle := h.forget (havoids.resolve_left hlt) d hd
    unfold DotVersionVector.comparedCounter at hle ⊢
    rw [Replica.forgetNodes_dot, Replica.forgetNodes_context] at hle ⊢
    exact hle

theorem Replica.Counted.afterFinalDots {r : Replica E id} (h : r.Counted) {n : Nat}
    {previousVStable : CausalContext} {m1 : List NodeId} {finalDots : HashMap NodeId Nat}
    {stable : CausalContext × HashSet NodeId}
    (hstable : r.gc.computeStableTimestamp id m1 finalDots r.dvv.effectiveMap = stable)
    (havoids : vvLeq stable.1 previousVStable = true ∨
      r.AvoidsForgotten (removeNodes stable.1 stable.2.keys) stable.2) :
    (InitiateGc.afterFinalDots r n previousVStable m1 finalDots).2.Counted ∧
      ∀ epochState epochMetadata, (InitiateGc.afterFinalDots r n previousVStable m1 finalDots).1 =
        .writeEpochState epochState epochMetadata → epochState.Counted := by
  by_cases hleq : vvLeq stable.1 previousVStable = true
  · rw [InitiateGc.afterFinalDots_noProgress r n previousVStable m1 hstable hleq]
    exact ⟨h, fun s m heq => by cases heq⟩
  · rw [InitiateGc.afterFinalDots_progress r n previousVStable m1 hstable hleq]
    have hcounted : (InitiateGc.prepareCommit r n stable.1 stable.2).1.Counted := by
      intro d hd
      have hcrdt : (InitiateGc.prepareCommit r n stable.1 stable.2).1.crdt =
          (r.performGc (removeNodes stable.1 stable.2.keys)).crdt := by
        show (r.forgetNodes stable.2).crdt.performGc _ = r.crdt.performGc _
        rw [Replica.forgetNodes_crdt]
      rw [hcrdt] at hd
      exact h.forget (havoids.resolve_left hleq) d hd
    refine ⟨hcounted, ?_⟩
    rintro epochState epochMetadata heq
    cases heq
    -- the snapshot is the full state of the prepared replica, under its own clock
    have hclock : ∀ d ∈ (InitiateGc.prepareCommit r n stable.1 stable.2).1.crdt.storedDots,
        d.counter ≤
        counterAt (InitiateGc.prepareCommit r n stable.1 stable.2).2.1.initiatorClock d.nodeId := by
      intro d hd
      show d.counter ≤ counterAt
        (InitiateGc.prepareCommit r n stable.1 stable.2).1.dvv.effectiveMap d.nodeId
      rw [DotVersionVector.counterAt_effectiveMap]
      exact Nat.le_trans (hcounted d hd) (DotVersionVector.comparedCounter_le_effectiveCounter _ _)
    constructor
    · rintro ⟨e, a⟩ ha
      exact hclock a
        ((OrSet.mem_storedDots _).mpr (Or.inl ⟨e, (OrSet.mem_adds_fullState _ e a _).mp ha⟩))
    · rintro ⟨a, d⟩ hd
      exact hclock d
        ((OrSet.mem_storedDots _).mpr (Or.inr ⟨a, (OrSet.mem_tombstones_fullState _ a d _).mp hd⟩))

namespace Cluster

variable {c c' : Cluster E}

/-- Whoever forgets nodes in this step, by observing an epoch or by getting ready to commit one,
holds no dot of them. -/
def forgetsUnheld (c : Cluster E) : Label E → Bool
  | .handle id _ =>
    match c.core id, c.nextRequest id with
    | some k, some .observeEpochChange =>
      let m := c.storage.readEpochMetadata
      decide (m.epoch ≤ k.replica.gc.epoch) ||
        decide (k.replica.AvoidsForgotten m.vStable m.obsoleteDots)
    | _, _ => true
  | .resume id ok =>
    match c.core id with
    | some ⟨r, .initiateGc (.readFinalDots _ previousVStable m1), _⟩ =>
      let stable := r.gc.computeStableTimestamp id m1 c.storage.readFinalDots r.dvv.effectiveMap
      !ok || vvLeq stable.1 previousVStable ||
        decide (r.AvoidsForgotten (removeNodes stable.1 stable.2.keys) stable.2)
    | _ => true
  | _ => true

abbrev Counting (c : Cluster E) : Prop :=
  DataInv (fun _ (r : Replica E _) => r.Counted) OrSetDelta.Counted EpochState.Counted c

theorem Counting.step {l : Label E} (h : Counting c) (hguard : forgetsUnheld c l = true)
    (hstep : c.step l = some c') : Counting c' := by
  refine DataInv.step countedRules h hstep (fun id choice k hl hk hnext => ?_)
    fun id k n previousVStable m1 hl hk htask => ?_
  · subst hl
    rw [forgetsUnheld, hk, hnext] at hguard
    simp only [Bool.or_eq_true, decide_eq_true_eq] at hguard
    exact Replica.Counted.observe (h.replicas id k hk) hguard
  · subst hl
    obtain ⟨r, task, shutdown⟩ := k
    obtain rfl : task = _ := htask
    rw [forgetsUnheld, hk] at hguard
    simp only [Bool.not_true, Bool.false_or, Bool.or_eq_true, decide_eq_true_eq] at hguard
    exact Replica.Counted.afterFinalDots (h.replicas id _ hk) rfl hguard

/-- **The fast path agrees with the delta, in the runs in which nobody forgets a node whose dots it
holds**: whenever a pull request is answered without a delta, the delta would have been empty. -/
theorem fast_path_agrees (members : HashMap NodeId Bool) (c : Cluster E)
    (h : Reachable Cluster.step (fun c l => forgetsUnheld c l = true) (fixed members) c)
    (id : NodeId) (s : Server E id) (fromNode : NodeId) (K : CausalContext)
    (hs : c.nodes.lookup id = some s)
    (hnone : (s.engine.learnMatrix ((∅ : MatrixClock).insert fromNode K)).deltaPayload
      s.registry fromNode K =
      none) :
    (s.engine.replica.crdt.deltaSince K s.engine.replica.dvv).adds = [] ∧
      (s.engine.replica.crdt.deltaSince K s.engine.replica.dvv).tombstones = [] := by
  have hcounting : Counting c :=
    h.invariant (dataInv_fixed countedRules members) fun _ l _ _ hs hguard hstep =>
      hs.step hguard hstep
  have hcounted := hcounting.replicas id s.core (c.core_of_lookup hs)
  exact (fast_path_agrees_iff (s.engine.learnMatrix ((∅ : MatrixClock).insert fromNode K))).mpr
    hcounted
    s.registry fromNode K hnone

/-- A GC replica `G` and the replicas `R` and `P`. -/
def hostAndGuests : Cluster String :=
  fixed (AList.ofPairs [("G", true), ("R", false), ("P", false)])

/-- `P` adds `x`, `G` learns of it and removes it, `R` learns of both and tells `G` so, and `P`
departs; `G` commits an epoch that reclaims the tombstone and declares `P` obsolete, `R` observes
it, and advertises to `G`. -/
def guestForgotten : List (Label String) :=
  [.connect "G" "P" false, .connect "G" "R" false, .connect "P" "G" true, .connect "R" "G" true] ++
    operate "P" ++
  pull "G" "P" 0 ++ [.request "G" (.clientOperation (.remove "x")), .handle "G" none] ++
    pull "R" "G" 0 ++
  advertise "R" "G" 0 ++ depart "P" ++ initiate "G" 8 ++
  [.request "R" .observeEpochChange, .handle "R" none, .request "R" .doPullRound,
    .handle "R" (some "G"),
    .receive 0]

/-- The pull request that `id` is about to work off. -/
def nextPull (c : Cluster String) (id : NodeId) : Option (NodeId × CausalContext) :=
  match c.nextRequest id with
  | some (.deltaRequest fromNode _ remoteKnowledge) => some (fromNode, remoteKnowledge)
  | _ => none

/-- `G` has forgotten `P`, of which nobody holds a dot any more, and has nothing to send to `R`. -/
theorem fast_path_agrees_guestForgotten :
    ∃ (c : Cluster String) (s : Server String "G") (K : CausalContext),
      replay Cluster.step (fun c l => forgetsUnheld c l = true) hostAndGuests guestForgotten =
        some c ∧
        c.nodes.lookup "G" = some s ∧ c.nextPull "G" = some ("R", K) ∧
        "P" ∈ c.storage.readEpochMetadata.obsoleteDots ∧
        (s.engine.replica.crdt.deltaSince K s.engine.replica.dvv).adds = [] ∧
        (s.engine.replica.crdt.deltaSince K s.engine.replica.dvv).tombstones = [] := by
  have hrun :
    ((replay Cluster.step (fun c l => forgetsUnheld c l = true) hostAndGuests guestForgotten).bind
      fun c =>
      (c.nodes.lookup "G").bind fun s => (c.nextPull "G").map fun pull =>
        decide (pull.1 = "R") && decide ("P" ∈ c.storage.readEpochMetadata.obsoleteDots) &&
          ((s.engine.learnMatrix ((∅ : MatrixClock).insert "R" pull.2)).deltaPayload s.registry "R"
            pull.2).isNone) = some true := by decide +kernel
  obtain ⟨c, hc, hrun⟩ := Option.bind_eq_some_iff.mp hrun
  obtain ⟨s, hs, hrun⟩ := Option.bind_eq_some_iff.mp hrun
  obtain ⟨⟨fromNode, K⟩, hpull, hchecks⟩ := Option.map_eq_some_iff.mp hrun
  simp only [Bool.and_eq_true, decide_eq_true_eq, Option.isNone_iff_eq_none] at hchecks
  obtain ⟨⟨rfl, hobsolete⟩, hnone⟩ := hchecks
  exact ⟨c, s, K, hc, hs, hpull, hobsolete,
    fast_path_agrees _ c (reachable_of_replay _ .start hc) "G" s "R" K hs hnone⟩

/-- `P` adds `x`, the others learn of it, `R` tells `G` so, and `P` departs; `G` commits an epoch
that declares `P` obsolete, `R` observes it, and advertises to `G`. -/
def guestAdds : List (Label String) :=
  [.connect "G" "P" false, .connect "G" "R" false, .connect "P" "G" true, .connect "P" "R" false,
    .connect "R" "G" true, .connect "R" "P" false] ++ operate "P" ++
  pull "G" "P" 0 ++ pull "R" "P" 0 ++ advertise "R" "G" 0 ++ depart "P" ++ initiate "G" 8 ++
  [.request "R" .observeEpochChange, .handle "R" none, .request "R" .doPullRound,
    .handle "R" (some "G"),
    .receive 0]

/-- `G` has nothing to send to `R` by its vector, which has forgotten `P`, while the delta contains
the add of `P`. -/
theorem forgotten_dot_not_sent :
    ∃ c, Reachable Cluster.step (fun _ l => l.succeeds = true) hostAndGuests c ∧
      ∃ (s : Server String "G") (K : CausalContext), c.nodes.lookup "G" = some s ∧
        c.nextPull "G" = some ("R", K) ∧
        (s.engine.learnMatrix ((∅ : MatrixClock).insert "R" K)).deltaPayload s.registry "R" K =
          none ∧
        (s.engine.replica.crdt.deltaSince K s.engine.replica.dvv).adds = [("x", ⟨"P", 1⟩)] := by
  have hrun :
    ((replay Cluster.step (fun _ l => l.succeeds = true) hostAndGuests guestAdds).bind fun c =>
      (c.nodes.lookup "G").bind fun s => (c.nextPull "G").map fun pull =>
        decide (pull.1 = "R") &&
        ((s.engine.learnMatrix ((∅ : MatrixClock).insert "R" pull.2)).deltaPayload s.registry "R"
          pull.2).isNone &&
        decide ((s.engine.replica.crdt.deltaSince pull.2 s.engine.replica.dvv).adds =
          [("x", ⟨"P", 1⟩)])) = some true := by decide +kernel
  obtain ⟨c, hc, hrun⟩ := Option.bind_eq_some_iff.mp hrun
  obtain ⟨s, hs, hrun⟩ := Option.bind_eq_some_iff.mp hrun
  obtain ⟨⟨fromNode, K⟩, hpull, hchecks⟩ := Option.map_eq_some_iff.mp hrun
  simp only [Bool.and_eq_true, decide_eq_true_eq, Option.isNone_iff_eq_none] at hchecks
  obtain ⟨⟨rfl, hnone⟩, hadds⟩ := hchecks
  exact ⟨c, reachable_of_replay _ .start hc, s, K, hs, hpull, hnone, hadds⟩

end Cluster

end ExperimentalCrdt
