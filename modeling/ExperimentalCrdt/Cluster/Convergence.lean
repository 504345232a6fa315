import ExperimentalCrdt.Cluster.Knowledge

/-!
# Observed-remove semantics over the cluster

The client operations of a run are the events of the observed-remove library: a dot, what was done,
and what the performer knew. `Replicated G c` says that every replica is a faithful view of them,
and that every delta on its way carries what its receiver will need, where `G` are the adds whose
tombstones may have been reclaimed. A dot is fresh when it is minted, because nobody knows more of a
node's events than the node itself (`Bounded`).

Without garbage collection `G` is empty, and what a replica contains is then a function of the
operations and of the dots it knows (`observed_remove_semantics`).
-/

namespace ExperimentalCrdt

open ObservedRemove (Op Event Added Removes Gone Live Faithful Carries UniqueDots)
open Transition (Reachable replay reachable_of_replay)

variable {E : Type} {id : NodeId}

/-- The dots that a plain vector dominates. -/
def knownBy (vv : CausalContext) : Set Dot := { x | x.counter ≤ counterAt vv x.nodeId }

theorem knownBy_effectiveMap (dvv : DotVersionVector) : knownBy dvv.effectiveMap = dvv.known := by
  ext x
  simp only [knownBy, DotVersionVector.known, Set.mem_ofPred_eq,
    DotVersionVector.counterAt_effectiveMap]

/-- A performed operation as an event. -/
def Performed.event (p : Performed E) : Event Dot E := ⟨p.dot, p.op.toOp, knownBy p.past⟩

namespace Cluster

/-- The events of the run. -/
def events (c : Cluster E) : Set (Event Dot E) := { ev | ∃ p ∈ c.history, ev = p.event }

/-- How many events the node counts of its own. -/
def ownCounter (c : Cluster E) (n : NodeId) : Nat :=
  ((c.core n).map fun k => k.replica.dvv.dot.counter).getD 0

/-- Nobody's events are known beyond their own counter. -/
def Bounded (c : Cluster E) (dvv : DotVersionVector) : Prop :=
  ∀ n, dvv.effectiveCounter n ≤ c.ownCounter n

variable [DecidableEq E]

structure Replicated (G : Set Dot) (c : Cluster E) : Prop where
  minted : ∀ p ∈ c.history, p.dot.counter ≤ c.ownCounter p.dot.nodeId
  unique : UniqueDots (events c)
  bounded : ∀ id k, c.core id = some k → c.Bounded k.replica.dvv
  faithful : ∀ id k, c.core id = some k →
    Faithful (events c) G (k.replica.crdt.view k.replica.dvv.known)
  bounded_deltas : ∀ dst fromNode crdtId delta km,
    c.Pending dst (.deltaResponse fromNode crdtId delta km) → c.Bounded delta.causalContext
  carried : ∀ dst fromNode crdtId delta km k,
    c.Pending dst (.deltaResponse fromNode crdtId delta km) → c.core dst = some k →
      Carries (events c) k.replica.dvv.known delta.view

variable {c c' : Cluster E} {G G' : Set Dot}

omit [DecidableEq E] in
theorem ownCounter_of_core {k : Core E id} (hk : c.core id = some k) :
    c.ownCounter id = k.replica.dvv.dot.counter := by
  rw [ownCounter, hk]
  rfl

omit [DecidableEq E] in
theorem Bounded.effectiveCounter_self {k : Core E id} (h : c.Bounded k.replica.dvv)
    (hk : c.core id = some k) :
    k.replica.dvv.effectiveCounter id = k.replica.dvv.dot.counter := by
  refine Nat.le_antisymm ?_ ?_
  · rw [← ownCounter_of_core hk]
    exact h id
  · have := k.replica.dvv.dotCounter_le_effectiveCounter
    rwa [k.replica.dvv_owner] at this

/-- Nobody comes and nobody forgets, and own counters only grow. -/
def Learned (c c' : Cluster E) : Prop :=
  ∀ x k', c'.core x = some k' → ∃ k, c.core x = some k ∧
    (∀ n, k.replica.dvv.effectiveCounter n ≤ k'.replica.dvv.effectiveCounter n) ∧
    k.replica.dvv.dot.counter ≤ k'.replica.dvv.dot.counter

omit [DecidableEq E] in
theorem Learned.of_others (hothers : ∀ x, x ≠ id → c'.core x = c.core x)
    (hself : ∀ k', c'.core id = some k' → ∃ k, c.core id = some k ∧
      (∀ n, k.replica.dvv.effectiveCounter n ≤ k'.replica.dvv.effectiveCounter n) ∧
      k.replica.dvv.dot.counter ≤ k'.replica.dvv.dot.counter) : Learned c c' := by
  intro x k' hk'
  by_cases hx : x = id
  · subst hx
    exact hself k' hk'
  · rw [hothers x hx] at hk'
    exact ⟨k', hk', fun _ => Nat.le_refl _, Nat.le_refl _⟩

section learned

variable (hgrow : Grows c c') (hlearned : Learned c c')
include hgrow hlearned

omit [DecidableEq E] in
theorem ownCounter_mono (n : NodeId) : c.ownCounter n ≤ c'.ownCounter n := by
  cases hk : c.core n with
  | none =>
    rw [ownCounter, hk]
    exact Nat.zero_le _
  | some k =>
    obtain ⟨k', hk', -⟩ := hgrow n k hk
    obtain ⟨k2, hk2, -, hle⟩ := hlearned n k' hk'
    rw [hk] at hk2
    obtain rfl := Option.some.inj hk2
    rw [ownCounter_of_core hk, ownCounter_of_core hk']
    exact hle

omit [DecidableEq E] in
theorem Bounded.mono {dvv : DotVersionVector} (h : c.Bounded dvv) : c'.Bounded dvv :=
  fun n => Nat.le_trans (h n) (ownCounter_mono hgrow hlearned n)

theorem Replicated.of_step (h : Replicated G c) (hG : G ⊆ G') (hhistory : c'.history = c.history)
    (hothers : ∀ x, x ≠ id → c'.core x = c.core x)
    (hself : ∀ k', c'.core id = some k' → c'.Bounded k'.replica.dvv ∧
      Faithful (events c) G' (k'.replica.crdt.view k'.replica.dvv.known))
    (hpending : ∀ dst fromNode crdtId delta km,
      c'.Pending dst (.deltaResponse fromNode crdtId delta km) →
      c.Pending dst (.deltaResponse fromNode crdtId delta km) ∨
        c.Bounded delta.causalContext ∧ ∀ k, c.core dst = some k →
          Carries (events c) k.replica.dvv.known delta.view) : Replicated G' c' := by
  have hevents : events c' = events c := by rw [events, events, hhistory]
  refine ⟨fun p hp => ?_, hevents ▸ h.unique, fun x k hk => ?_, fun x k hk => ?_,
    fun dst from_ crdtId delta km hreq => ?_, fun dst from_ crdtId delta km k' hreq hk' => ?_⟩
  · rw [hhistory] at hp
    exact Nat.le_trans (h.minted p hp) (ownCounter_mono hgrow hlearned _)
  · by_cases hx : x = id
    · subst hx
      exact (hself k hk).1
    · rw [hothers x hx] at hk
      exact (h.bounded x k hk).mono hgrow hlearned
  · rw [hevents]
    by_cases hx : x = id
    · subst hx
      exact (hself k hk).2
    · rw [hothers x hx] at hk
      exact (h.faithful x k hk).mono hG
  · rcases hpending dst from_ crdtId delta km hreq with hold | ⟨hb, -⟩
    · exact (h.bounded_deltas dst from_ crdtId delta km hold).mono hgrow hlearned
    · exact hb.mono hgrow hlearned
  · rw [hevents]
    obtain ⟨k, hk, hle, -⟩ := hlearned dst k' hk'
    have hsub := DotVersionVector.known_subset_of_le _ _ hle
    rcases hpending dst from_ crdtId delta km hreq with hold | ⟨-, hcarries⟩
    · exact (h.carried dst from_ crdtId delta km k hold hk).mono hsub
    · exact (hcarries k hk).mono hsub

end learned

/-! ## Working off a request -/

variable {choice : Option NodeId} {s : Server E id} {req : CrdtEngineRequest E}

/-- **A delta that is sent carries what the requester will need**, however late it arrives. -/
theorem Replicated.sent_delta (h : Replicated G c) (hrows : Rows c)
    (hh : Handled c c' id choice s req)
    (hgone : ∀ a ∈ G, ∀ x k, c.core x = some k → Gone (events c) k.replica.dvv.known a)
    {dst fromNode : NodeId} {crdtId : String} {delta : OrSetDelta E} {km : Option MatrixClock}
    {envelope : Envelope E}
    (hsent : (dst, envelope) ∈ (s.handle c.storage.readEpochMetadata choice req).2)
    (hr : .deltaResponse fromNode crdtId delta km ∈ handleReceivedEnvelope envelope) :
    (∀ op, req ≠ .clientOperation op) ∧ c.Bounded delta.causalContext ∧
      ∀ k, c.core dst = some k → Carries (events c) k.replica.dvv.known delta.view := by
  rcases s.sent_cases c.storage.readEpochMetadata choice req hsent hr with
    ⟨crdtId, heq⟩ | ⟨crdtId, K, km', rfl, heq, -⟩
  · cases heq
  · cases heq
    refine ⟨fun op hop => ?_, fun n => ?_, fun k hk => ?_⟩
    · cases hop
    · rw [OrSet.effectiveCounter_causalContext]
      exact h.bounded id s.core hh.before n
    · obtain ⟨k2, hk2, -, hle⟩ := hrows.pending id _ hh.taken
      rw [hk] at hk2
      obtain rfl := Option.some.inj hk2
      exact OrSet.carries_deltaSince _ K _ (h.faithful id s.core hh.before)
        (fun x hx => Nat.le_trans hx (hle x.nodeId)) fun a ha => hgone a ha dst k hk

theorem events_performed {op : OrSetOp E} (hh : Handled c c' id choice s (.clientOperation op)) :
    events c' = insert
      (Performed.event ⟨s.engine.nextDot, op, s.engine.replica.dvv.effectiveMap⟩) (events c) := by
  ext ev
  simp only [events, hh.history, performed, List.mem_append, List.mem_singleton, Set.mem_ofPred_eq,
    Set.mem_insert_iff]
  constructor
  · rintro ⟨p, hp | rfl, rfl⟩
    · exact Or.inr ⟨p, hp, rfl⟩
    · exact Or.inl rfl
  · rintro (rfl | ⟨p, hp, rfl⟩)
    · exact ⟨_, Or.inr rfl, rfl⟩
    · exact ⟨p, Or.inl hp, rfl⟩

omit [DecidableEq E] in
theorem known_event {dvv : DotVersionVector}
    (h : dvv.effectiveCounter dvv.dot.nodeId = dvv.dot.counter) :
    dvv.event.known = insert dvv.event.dot dvv.known := by
  have hdot : dvv.event.dot = ⟨dvv.dot.nodeId, dvv.dot.counter + 1⟩ := rfl
  ext ⟨n, i⟩
  simp only [DotVersionVector.known, Set.mem_ofPred_eq, Set.mem_insert_iff,
    DotVersionVector.effectiveCounter_event, hdot, Dot.mk.injEq]
  by_cases hn : n = dvv.dot.nodeId
  · subst hn
    rw [if_pos rfl, h]
    simp only [true_and]
    omega
  · rw [if_neg hn]
    simp [hn]

omit [DecidableEq E] in
theorem fresh_of_bounded {k : Core E id} (hk : c.core id = some k) {dvv : DotVersionVector}
    (h : c.Bounded dvv) : k.replica.dvv.event.dot ∉ dvv.known := by
  intro hmem
  have hle : k.replica.dvv.dot.counter + 1 ≤ dvv.effectiveCounter k.replica.dvv.dot.nodeId := hmem
  have hbound := h k.replica.dvv.dot.nodeId
  rw [k.replica.dvv_owner] at hle hbound
  rw [ownCounter_of_core hk] at hbound
  omega

theorem Replicated.fresh_in_history (h : Replicated G c) {k : Core E id} (hk : c.core id = some k) :
    ∀ ev ∈ events c, ev.dot ≠ k.replica.dvv.event.dot := by
  rintro ev ⟨p, hp, rfl⟩ heq
  have hle := h.minted p hp
  have hdot : p.dot = k.replica.dvv.event.dot := heq
  rw [hdot, DotVersionVector.event_dot_nodeId, DotVersionVector.event_dot_counter,
    k.replica.dvv_owner, ownCounter_of_core hk] at hle
  omega

/-- **A client operation** keeps every view faithful and every delta useful. -/
theorem Replicated.clientOperation (h : Replicated G c) (hrows : Rows c) {op : OrSetOp E}
    (hh : Handled c c' id choice s (.clientOperation op)) (hlearned : Learned c c') (hG : G ⊆ G')
    (hgone : ∀ a ∈ G, ∀ x k, c.core x = some k → Gone (events c) k.replica.dvv.known a) :
    Replicated G' c' := by
  have hgrow := hrows.grows_handled hh
  have hevents := events_performed hh
  have hk := hh.before
  have hdot := hh.after
  have hself := (h.bounded id s.core hk).effectiveCounter_self hk
  have hcounter := ownCounter_of_core hdot
  have howner : s.engine.replica.dvv.dot.nodeId = id := s.engine.replica.dvv_owner
  set ev := Performed.event ⟨s.engine.nextDot, op, s.engine.replica.dvv.effectiveMap⟩ with hev
  have hnew : ∀ ev' ∈ events c, ev'.dot ≠ ev.dot := h.fresh_in_history hk
  have hfresh : ∀ dvv, c.Bounded dvv → ev.dot ∉ dvv.known := fun dvv hb => fresh_of_bounded hk hb
  have hpending : ∀ dst from_ crdtId delta km,
      c'.Pending dst (.deltaResponse from_ crdtId delta km) →
      c.Pending dst (.deltaResponse from_ crdtId delta km) :=
          fun dst from_ crdtId delta km hreq => by
    rcases hh.pending dst _ hreq with hold | ⟨envelope, hsent, hr⟩
    · exact hold
    · exact absurd rfl ((h.sent_delta hrows hh hgone hsent hr).1 op)
  refine ⟨fun p hp => ?_, ?_, fun x k' hk' => ?_, fun x k' hk' => ?_,
    fun dst from_ crdtId delta km hreq => ?_,
    fun dst from_ crdtId delta km k' hreq hk' => ?_⟩
  · rw [hh.history, performed, List.mem_append, List.mem_singleton] at hp
    rcases hp with hp | rfl
    · exact Nat.le_trans (h.minted p hp) (ownCounter_mono hgrow hlearned _)
    · rw [show s.engine.nextDot.nodeId = id from howner, hcounter]
      exact Nat.le_refl _
  · rw [hevents]
    rintro e1 (rfl | h1) e2 (rfl | h2) heq
    · rfl
    · exact absurd heq.symm (hnew e2 h2)
    · exact absurd heq (hnew e1 h1)
    · exact h.unique e1 h1 e2 h2 heq
  · by_cases hx : x = id
    · subst hx
      rw [hdot] at hk'
      obtain rfl := Option.some.inj hk'
      intro n
      have hle := Nat.le_trans (h.bounded x s.core hk n) (ownCounter_mono hgrow hlearned n)
      have hevent :
          (s.handle c.storage.readEpochMetadata choice (.clientOperation op)).1.core.replica.dvv =
          s.engine.replica.dvv.event := rfl
      rw [hevent, DotVersionVector.effectiveCounter_event]
      split
      · next hn =>
        rw [hn, howner] at hle ⊢
        refine Nat.max_le.mpr ⟨hle, ?_⟩
        rw [hcounter]
        exact Nat.le_refl _
      · exact hle
    · rw [hh.others x hx] at hk'
      exact (h.bounded x k' hk').mono hgrow hlearned
  · rw [hevents]
    by_cases hx : x = id
    · subst hx
      rw [hdot] at hk'
      obtain rfl := Option.some.inj hk'
      have hperformer : Faithful (insert ev (events c)) G
          ((s.engine.replica.crdt.applyLocal ev.dot op).view
            (insert ev.dot s.engine.replica.dvv.known)) :=
        OrSet.faithful_applyLocal s.engine.replica.crdt (h.faithful x s.core hk)
          (hfresh _ (h.bounded x s.core hk)) hnew (knownBy_effectiveMap _) rfl
      have hknown : s.engine.replica.dvv.event.known = insert ev.dot s.engine.replica.dvv.known :=
        known_event (by rw [howner]; exact hself)
      rw [← hknown] at hperformer
      exact hperformer.mono hG
    · rw [hh.others x hx] at hk'
      have hextended :
          Faithful (insert ev (events c)) G (k'.replica.crdt.view k'.replica.dvv.known) :=
        (h.faithful x k' hk').extend (hfresh _ (h.bounded x k' hk'))
      exact hextended.mono hG
  · exact (h.bounded_deltas dst from_ crdtId delta km (hpending _ _ _ _ _ hreq)).mono hgrow hlearned
  · rw [hevents]
    obtain ⟨k0, hk0, hle, -⟩ := hlearned dst k' hk'
    have hold := hpending _ _ _ _ _ hreq
    have hextended : Carries (insert ev (events c)) k0.replica.dvv.known delta.view :=
      (h.carried dst from_ crdtId delta km k0 hold hk0).extend
        (hfresh _ (h.bounded_deltas dst from_ crdtId delta km hold))
    exact hextended.mono (DotVersionVector.known_subset_of_le _ _ hle)

/-- The delta would bring back an add: the vector knows the add, the set neither holds it nor has a
tombstone for it, and no tombstone comes with the delta. -/
def BringsBack (r : Replica E id) (delta : OrSetDelta E) : Prop :=
  ∃ add ∈ delta.adds, r.dvv.dominatesDot add.2 = true ∧ ¬ r.crdt.HasAdd add.1 add.2 ∧
    add.2 ∉ r.crdt.tombstones ∧ ∀ t ∈ delta.tombstones, t.1 ≠ add.2

instance (r : Replica E id) (delta : OrSetDelta E) : Decidable (BringsBack r delta) :=
  inferInstanceAs (Decidable (∃ add ∈ delta.adds, _))

theorem learned_handled (hrows : Rows c) (hh : Handled c c' id choice s req) : Learned c c' := by
  refine Learned.of_others hh.others fun k' hk' => ?_
  rw [hh.after] at hk'
  obtain rfl := Option.some.inj hk'
  exact ⟨s.core, hh.before, fun n => effectiveCounter_le_handle s
    (fun _ _ => hrows.notMem_obsolete n) choice,
    s.dotCounter_le_handle c.storage.readEpochMetadata choice req⟩

/-- **Handling a request** keeps every view faithful and every delta useful, if no delta brings back
an add of `G`, and whatever an observed epoch reclaims is put into `G'`. -/
theorem Replicated.handled (h : Replicated G c) (hrows : Rows c) (hh : Handled c c' id choice s req)
    (hG : G ⊆ G') (hgone : ∀ a ∈ G, ∀ x k, c.core x = some k →
      Gone (events c) k.replica.dvv.known a)
    (hmerge : ∀ fromNode crdtId delta km, req = .deltaResponse fromNode crdtId delta km →
      (∀ a, a ∉ G) ∨ ¬ BringsBack s.engine.replica delta)
    (hobserve : req = .observeEpochChange →
      Faithful (events c) G'
        ((s.engine.replica.observeEpochChange c.storage.readEpochMetadata).crdt.view
        s.engine.replica.dvv.known)) : Replicated G' c' := by
  have hlearned := learned_handled hrows hh
  have hk := hh.before
  have hbounded := h.bounded id s.core hk
  have hfaithful := h.faithful id s.core hk
  by_cases hop : ∃ op, req = .clientOperation op
  · obtain ⟨op, rfl⟩ := hop
    exact h.clientOperation hrows hh hlearned hG hgone
  have hgrow := hrows.grows_handled hh
  have hhistory : c'.history = c.history := by
    rw [hh.history]
    have hnone : performed s req = [] := by
      cases req with
      | clientOperation op => exact absurd ⟨op, rfl⟩ hop
      | _ => rfl
    rw [hnone, List.append_nil]
  refine h.of_step hgrow hlearned hG hhistory hh.others (fun k' hk' => ?_)
    fun dst from_ crdtId delta km hreq => (hh.pending dst _ hreq).imp_right
      fun ⟨envelope, hsent, hr⟩ => (h.sent_delta hrows hh hgone hsent hr).2
  rw [hh.after] at hk'
  obtain rfl := Option.some.inj hk'
  have hmono : c'.Bounded s.engine.replica.dvv := hbounded.mono hgrow hlearned
  rcases s.handle_replica_cases c.storage.readEpochMetadata choice req
    with ⟨hr, -⟩ | ⟨op, hreq, -⟩ |
    ⟨from_, crdtId, K, -, hr⟩ | ⟨from_, crdtId, payload, km, hreq, hr⟩ | ⟨hreq, hr⟩
  · rw [hr]
    exact ⟨hmono, hfaithful.mono hG⟩
  · exact absurd ⟨op, hreq⟩ hop
  · rw [hr]
    exact ⟨hmono, hfaithful.mono hG⟩
  · have htaken := hh.taken
    rw [hreq] at htaken
    have hsame : (km.elim s.engine s.engine.learnMatrix).replica.crdt = s.engine.replica.crdt ∧
        (km.elim s.engine s.engine.learnMatrix).replica.dvv = s.engine.replica.dvv := by
      cases km <;> exact ⟨rfl, rfl⟩
    have hcarries := h.carried id from_ crdtId payload km s.core htaken hk
    rw [hr]
    simp only [CrdtEngine.mergeDelta, hsame]
    refine ⟨fun n => ?_, ?_⟩
    · rw [DotVersionVector.effectiveCounter_merge]
      exact Nat.max_le.mpr ⟨hmono n,
        (h.bounded_deltas id from_ crdtId payload km htaken).mono hgrow hlearned n⟩
    · refine Faithful.mono ?_ hG
      refine hfaithful.merge h.unique hcarries
        (OrSet.merged_mergeDelta s.engine.replica.crdt payload s.engine.replica.dvv)
          fun e a hadd hinG hknown => ?_
      rcases hmerge from_ crdtId payload km hreq with hnone | hnot
      · exact absurd hinG (hnone a)
      · rw [OrSet.tombstoned_view]
        by_contra hneither
        obtain ⟨hno, htomb⟩ := not_or.mp hneither
        rw [OrSet.mem_tombstones_mergeDelta, not_or] at htomb
        refine hnot ⟨(e, a), hadd, (s.engine.replica.dvv.dominatesDot_iff a).mpr hknown,
          hno, htomb.2, ?_⟩
        rintro ⟨b, r⟩ hb rfl
        exact htomb.1 ⟨r, hb⟩
  · rw [hr, (observeEpochChange_keeps s.engine.replica hrows.obsolete_stored).1]
    exact ⟨hmono, hobserve hreq⟩

theorem Replicated.same (h : Replicated G c) (hG : G ⊆ G') (hcore : ∀ x, c'.core x = c.core x)
    (hhistory : c'.history = c.history)
    (hpending : ∀ dst r, c'.Pending dst r → c.Pending dst r ∨ Local r) : Replicated G' c' := by
  have hlearned : Learned c c' := fun x k hk => by
    rw [hcore] at hk
    exact ⟨k, hk, fun _ => Nat.le_refl _, Nat.le_refl _⟩
  refine h.of_step (Grows.refl hcore) hlearned hG hhistory (fun x (_ : x ≠ "") => hcore x)
    (fun k hk => ?_)
    fun dst from_ crdtId delta km hreq => Or.inl
      ((hpending dst _ hreq).resolve_right fun hlocal => hlocal)
  rw [hcore] at hk
  exact ⟨(h.bounded _ k hk).mono (Grows.refl hcore) hlearned, (h.faithful _ k hk).mono hG⟩

theorem replicated_fixed (members : HashMap NodeId Bool) :
    Replicated G (fixed members : Cluster E) := by
  have hcore : ∀ id k, (fixed members : Cluster E).core id = some k →
      ∃ gcReplica, k = ⟨.new gcReplica, .idle, .running⟩ := fun id k hk => by
    obtain ⟨gcReplica, -, rfl⟩ := core_fixed_cases hk
    exact ⟨gcReplica, rfl⟩
  refine ⟨fun p hp => absurd hp List.not_mem_nil, ?_, fun x k hk n => ?_, fun x k hk => ?_,
    fun dst from_ crdtId delta km hreq => absurd hreq (not_pending_fixed members dst _),
    fun dst from_ crdtId delta km k hreq => absurd hreq (not_pending_fixed members dst _)⟩
  · rintro ev ⟨p, hp, -⟩
    cases hp
  · obtain ⟨gcReplica, rfl⟩ := hcore x k hk
    exact le_of_eq_of_le (DotVersionVector.effectiveCounter_new n x) (Nat.zero_le _)
  · obtain ⟨gcReplica, rfl⟩ := hcore x k hk
    have hnone : ∀ ev, ev ∉ events (fixed members : Cluster E) := fun ev ⟨p, hp, _⟩ => by cases hp
    refine ⟨fun e a => ⟨fun hadd => absurd hadd (OrSet.not_hasAdd_new e a), ?_⟩,
      fun a r ht => ?_, ?_,
      fun ev hev => absurd hev (hnone ev)⟩
    · rintro ⟨⟨ev, hev, -⟩, -⟩
      exact absurd hev (hnone ev)
    · cases ht
    · rintro a ⟨e, ⟨ev, hev, -⟩, -⟩
      exact absurd hev (hnone ev)

/-! ## Runs without garbage collection -/

end Cluster

/-- The labels of a run over a fixed set of replicas in which nobody initiates garbage
collection. -/
def Label.withoutGc : Label E → Bool
  | .request _ .initiateGc => false
  | .start _ _ => false
  | .beginShutdown _ => false
  | .continueShutdown _ _ => false
  | _ => true

theorem Label.stays_of_withoutGc {l : Label E} (h : l.withoutGc = true) : l.stays = true := by
  cases l with
  | beginShutdown id => cases h
  | continueShutdown id ok => cases h
  | _ => rfl

theorem Label.not_puts_initiateGc {l : Label E} (h : l.withoutGc = true) :
    ¬ l.Puts .initiateGc := by
  rintro ⟨id, req, rfl, heq⟩
  cases req with
  | initiateGc => cases h
  | _ => cases heq

namespace Cluster

variable {c c' : Cluster E} [DecidableEq E]

/-- Garbage collection has not begun, and every view is faithful with nothing reclaimed. -/
structure WithoutGc (c : Cluster E) : Prop where
  idle : ∀ id k, c.core id = some k → k.task = .idle
  never : ∀ dst, ¬ c.Pending dst .initiateGc
  epoch : c.storage.epochMetadata = none
  rows : Rows c
  replicated : Replicated ∅ c

theorem WithoutGc.handled (h : WithoutGc c) {choice : Option NodeId} {s : Server E id}
    {req : CrdtEngineRequest E} (hh : Handled c c' id choice s req) : WithoutGc c' := by
  refine ⟨fun x k hk => ?_, fun dst hreq => ?_,
    by rw [hh.storage]; exact h.epoch, h.rows.handled hh,
    h.replicated.handled h.rows hh (Set.empty_subset _) (fun a ha => ha.elim)
      (fun _ _ _ _ _ => Or.inl fun a ha => ha) fun _ => ?_⟩
  · by_cases hx : x = id
    · subst hx
      rw [hh.after] at hk
      obtain rfl := Option.some.inj hk
      rcases handle_task s c.storage.readEpochMetadata choice req with heq | ⟨rfl, -⟩
      · exact heq.trans hh.idle
      · exact absurd hh.taken (h.never x)
    · rw [hh.others x hx] at hk
      exact h.idle x k hk
  · rcases hh.pending dst _ hreq with hold | ⟨envelope, hsent, hr⟩
    · exact h.never dst hold
    · rcases s.sent_cases c.storage.readEpochMetadata choice req hsent hr with
        ⟨crdtId, heq⟩ | ⟨crdtId, K, km, -, heq, -⟩ <;> cases heq
  · -- nothing has been published, so there is nothing to observe
    have hnothing : s.engine.replica.observeEpochChange c.storage.readEpochMetadata =
        s.engine.replica := by
      rw [Replica.observeEpochChange, Storage.readEpochMetadata, h.epoch]
      exact if_pos (Nat.zero_le _)
    rw [hnothing]
    exact h.replicated.faithful id s.core hh.before

theorem WithoutGc.step {l : Label E} (h : WithoutGc c) (hl : l.withoutGc = true)
    (hstep : c.step l = some c') :
    WithoutGc c' := by
  have hrows := (h.rows.step (Label.stays_of_withoutGc hl) hstep).1
  cases l with
  | request | receive | duplicate | drop | connect | disconnect =>
    have hq : Quiet _ c c' := step_quiet (by exact trivial) hstep
    refine ⟨fun x k hk => h.idle x k (hq.core x ▸ hk), fun dst hreq => ?_,
      by rw [hq.storage]; exact h.epoch,
      hrows, h.replicated.same (Set.empty_subset _) hq.core hq.history
        fun dst r hr => (hq.pending dst r hr).imp_right local_of_puts⟩
    rcases hq.pending dst _ hreq with hold | hputs
    · exact h.never dst hold
    · exact Label.not_puts_initiateGc hl hputs
  | handle id choice =>
    obtain ⟨s, req, hh⟩ := step_handle hstep
    exact h.handled hh
  | resume id ok =>
    obtain ⟨-, ⟨k, pc, hb⟩ | ⟨k, pc, hi⟩⟩ := step_resume hstep
    · have htask := h.idle id k hb.before
      rw [hb.task] at htask
      cases htask
    · have htask := h.idle id k hi.before
      rw [hi.task] at htask
      cases htask
  | heartbeat id =>
    obtain ⟨-, rfl⟩ := step_heartbeat hstep
    exact ⟨h.idle, h.never, (c.storage.register_epochMetadata id).trans h.epoch, hrows,
      h.replicated.same (Set.empty_subset _) (fun _ => rfl) rfl fun _ _ => Or.inl⟩
  | start id gcReplica => cases hl
  | beginShutdown id => cases hl
  | continueShutdown id ok => cases hl

theorem withoutGc_of_reachable {members : HashMap NodeId Bool}
    (h : Reachable Cluster.step (fun _ l => l.withoutGc = true) (fixed members) c) :
    WithoutGc c := by
  refine h.invariant ⟨fun id k hk => ?_, fun dst => not_pending_fixed members dst _,
    rfl, rows_fixed members,
    replicated_fixed members⟩ fun s l s' _ hs hl hstep => hs.step hl hstep
  obtain ⟨gcReplica, -, rfl⟩ := core_fixed_cases hk
  rfl

/-! ## What a replica contains -/

omit [DecidableEq E] in
theorem live_iff {dvv : DotVersionVector} {e : E} {a : Dot} :
    Live (events c) dvv.known e a ↔
      (∃ p ∈ c.history, p.op = .add e ∧ p.dot = a) ∧ dvv.dominatesDot a = true ∧
        ∀ q ∈ c.history, q.op = .remove e → dvv.dominatesDot q.dot = true →
          ¬ a.counter ≤ counterAt q.past a.nodeId := by
  have hop : ∀ p : Performed E, (p.op.toOp = .add e ↔ p.op = .add e) ∧
      (p.op.toOp = .remove e ↔ p.op = .remove e) := fun p => by
    cases p.op <;> simp [OrSetOp.toOp]
  simp only [DotVersionVector.dominatesDot_iff]
  constructor
  · rintro ⟨⟨ev, ⟨p, hp, rfl⟩, hdot, hadd⟩, hknown, hnot⟩
    exact ⟨⟨p, hp, (hop p).1.mp hadd, hdot⟩, hknown, fun q hq hrem hr hpast =>
      hnot q.dot hr ⟨q.event, ⟨q, hq, rfl⟩, rfl, (hop q).2.mpr hrem, hpast⟩⟩
  · rintro ⟨⟨p, hp, hadd, hdot⟩, hknown, hnot⟩
    refine ⟨⟨p.event, ⟨p, hp, rfl⟩, hdot, (hop p).1.mpr hadd⟩, hknown, ?_⟩
    rintro r hr ⟨ev, ⟨q, hq, rfl⟩, rfl, hrem, hpast⟩
    exact hnot q hq ((hop q).2.mp hrem) hr hpast

theorem known_eq_of_effectiveMap {d d' : DotVersionVector}
    (h : ∀ n, counterAt d.effectiveMap n = counterAt d'.effectiveMap n) : d.known = d'.known := by
  rw [← knownBy_effectiveMap, ← knownBy_effectiveMap]
  ext x
  simp only [knownBy, Set.mem_ofPred_eq, h]

theorem contains_iff_live {h : Set (Event Dot E)} {G : Set Dot} (hu : UniqueDots h)
    {r : Replica E id} (hf : Faithful h G (r.crdt.view r.dvv.known)) (e : E) :
    r.crdt.contains e = true ↔ ∃ a, Live h r.dvv.known e a := by
  rw [OrSet.contains_iff]
  constructor
  · rintro ⟨a, hadd, -⟩
    exact ⟨a, (hf.adds_iff e a).mp hadd⟩
  · rintro ⟨a, hlive⟩
    refine ⟨a, (hf.adds_iff e a).mpr hlive, fun htomb => hlive.not_gone hu ?_⟩
    exact hf.tomb_sound.gone ((OrSet.tombstoned_view _).mpr htomb)

/-- **Observed-remove semantics and strong convergence**: without garbage collection, a replica
contains the elements with an add that it knows and that no remove it knows had observed; and
replicas with equal effective maps hold the same adds and the same tombstones. -/
theorem observed_remove_semantics (members : HashMap NodeId Bool) (c : Cluster E)
    (h : Reachable Cluster.step (fun _ l => l.withoutGc = true) (fixed members) c) :
    (∀ id k, c.core id = some k → ∀ e, k.replica.crdt.contains e = true ↔
      ∃ p ∈ c.history, p.op = .add e ∧ k.replica.dvv.dominatesDot p.dot = true ∧
        ¬ ∃ q ∈ c.history, q.op = .remove e ∧ k.replica.dvv.dominatesDot q.dot = true ∧
          p.dot.counter ≤ counterAt q.past p.dot.nodeId) ∧
    ∀ id k id' k', c.core id = some k → c.core id' = some k' →
      (∀ n, counterAt k.replica.dvv.effectiveMap n = counterAt k'.replica.dvv.effectiveMap n) →
        (∀ e a, k.replica.crdt.HasAdd e a ↔ k'.replica.crdt.HasAdd e a) ∧
        ∀ a, a ∈ k.replica.crdt.tombstones ↔ a ∈ k'.replica.crdt.tombstones := by
  have hr := (withoutGc_of_reachable h).replicated
  refine ⟨fun id k hk e => ?_, fun id k id' k' hk hk' heq => ?_⟩
  · rw [contains_iff_live hr.unique (hr.faithful id k hk)]
    simp only [live_iff]
    constructor
    · rintro ⟨_, ⟨p, hp, hadd, rfl⟩, hknown, hnot⟩
      exact ⟨p, hp, hadd, hknown, fun ⟨q, hq, hrem, hqknown, hpast⟩ => hnot q hq hrem hqknown hpast⟩
    · rintro ⟨p, hp, hadd, hknown, hnot⟩
      exact ⟨p.dot, ⟨p, hp, hadd, rfl⟩, hknown, fun q hq hrem hqknown hpast =>
        hnot ⟨q, hq, hrem, hqknown, hpast⟩⟩
  · have hf := hr.faithful id k hk
    have hf' := hr.faithful id' k' hk'
    have hknown := known_eq_of_effectiveMap heq
    refine ⟨fun e a => hf.adds_eq hf' hknown, fun a => ?_⟩
    rw [← OrSet.tombstoned_view k.replica.crdt, ← OrSet.tombstoned_view k'.replica.crdt,
      hf.tombstoned_iff, hf'.tombstoned_iff]
    exact iff_of_eq (congrArg (fun K => Gone (events c) K a) hknown)

/-- `A` adds `x`; `B` learns of it and removes `x` while `A` adds it again; then they meet. -/
def concurrentAdd : List (Label String) :=
  [.connect "A" "B" false, .connect "B" "A" false,
    .request "A" (.clientOperation (.add "x")), .handle "A" none,
    .request "B" .doPullRound, .handle "B" (some "A"), .receive 0, .handle "A" none,
    .receive 0, .handle "B" none,
    .request "B" (.clientOperation (.remove "x")), .handle "B" none,
    .request "A" (.clientOperation (.add "x")), .handle "A" none,
    .request "B" .doPullRound, .handle "B" (some "A"), .receive 0, .handle "A" none,
    .receive 0, .handle "B" none]

/-- The add that the remove had not observed wins. -/
theorem observed_remove_semantics_concurrentAdd :
    ∃ (c : Cluster String) (k : Core String "B"),
      replay Cluster.step (fun _ l => l.withoutGc = true)
        (fixed (AList.ofPairs [("A", false), ("B", false)])) concurrentAdd = some c ∧
      c.core "B" = some k ∧ k.replica.crdt.contains "x" = true ∧
      ∃ p ∈ c.history, p.op = .add "x" ∧ k.replica.dvv.dominatesDot p.dot = true ∧
        ¬ ∃ q ∈ c.history, q.op = .remove "x" ∧ k.replica.dvv.dominatesDot q.dot = true ∧
          p.dot.counter ≤ counterAt q.past p.dot.nodeId := by
  have hrun : ((replay Cluster.step (fun _ l => l.withoutGc = true)
      (fixed (AList.ofPairs [("A", false), ("B", false)]) : Cluster String) concurrentAdd).bind
          fun c =>
        (c.core "B").map fun k => k.replica.crdt.contains "x") = some true := by decide +kernel
  obtain ⟨c, hc, hcore⟩ := Option.bind_eq_some_iff.mp hrun
  obtain ⟨k, hk, hcontains⟩ := Option.map_eq_some_iff.mp hcore
  exact ⟨c, k, hc, hk, hcontains,
    ((observed_remove_semantics _ c (reachable_of_replay _ .start hc)).1 "B" k hk "x").mp hcontains⟩

end Cluster

end ExperimentalCrdt
