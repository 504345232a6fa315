import ExperimentalCrdt.LogicalClocks.DotVersionVector
import ExperimentalCrdt.Lib.ObservedRemove

/-!
# The observed-remove set

`crdt/or_set.rs`: `adds` maps each element to the set of dots that justify its presence,
`tombstones` maps an add-dot to the dot of the remove event that took it out. The set itself knows
nothing about causality; the engine hands it the dots and the clocks.

`HasAdd` reads `adds` as a relation, and every operation gets one lemma that says what it does to
`HasAdd` and one for the tombstones. `view` connects the code to the observed-remove library: an
`OrSet` together with the dots its replica knows is a `View`, and `merged_mergeDelta` says that
`mergeDelta` is the library's merge.
-/

namespace ExperimentalCrdt

inductive OrSetOp (E : Type) where
  | add (elem : E)
  | remove (elem : E)
deriving DecidableEq, Repr

structure OrSetDelta (E : Type) where
  /-- Missing (element, dot) pairs being added. -/
  adds : List (E × Dot)
  /-- Missing tombstones: (removed add-dot, remove-event dot). -/
  tombstones : List (Dot × Dot)
  /-- The sender's causal context, with its dot. -/
  context : CausalContext
  dotNode : NodeId
  dotCounter : Nat

/-- What `DeltaContext::causal_context` lets the engine rebuild. -/
def OrSetDelta.causalContext {E : Type} (delta : OrSetDelta E) : DotVersionVector :=
  { dot := ⟨delta.dotNode, delta.dotCounter⟩, context := delta.context }

structure OrSet (E : Type) where
  /-- Active elements: element → set of dots that justify its presence. -/
  adds : HashMap E (HashSet Dot)
  /-- Tombstones: original add-dot → remove-event dot. -/
  tombstones : HashMap Dot Dot

namespace OrSet

variable {E : Type} [DecidableEq E]

def new : OrSet E := { adds := ∅, tombstones := ∅ }

/-- Some dot of `dots` has no tombstone. -/
def anyVisible (self : OrSet E) (dots : HashSet Dot) : Bool :=
  dots.keys.any fun d => !decide (d ∈ self.tombstones)

def contains (self : OrSet E) (elem : E) : Bool :=
  ((self.adds.lookup elem).map self.anyVisible).getD false

def elements (self : OrSet E) : List E :=
  (self.adds.entries.filter fun e => self.anyVisible e.2).map fun e => e.1

def applyLocal (self : OrSet E) (dot : Dot) : OrSetOp E → OrSet E
  | .add elem => { self with adds := self.adds.upsert elem fun dots => (dots.getD ∅).insert dot () }
  | .remove elem =>
    { adds := self.adds.erase elem
      tombstones :=
        ((self.adds.lookup elem).getD ∅).keys.foldl (fun t addDot => t.insert addDot dot)
          self.tombstones }

/-- Record one tombstone of a delta and evict its add-dot. -/
def applyTombstone (self : OrSet E) (addDot removeDot : Dot) : OrSet E :=
  { adds := self.adds.mapValues fun dots => dots.erase addDot
    tombstones := self.tombstones.insert addDot removeDot }

/-- Apply one add of a delta, unless its dot is tombstoned. -/
def applyAdd (self : OrSet E) (elem : E) (dot : Dot) : OrSet E :=
  if dot ∈ self.tombstones then self
  else { self with adds := self.adds.upsert elem fun dots => (dots.getD ∅).insert dot () }

/-- Drop the elements whose dots were all evicted. -/
def dropEmpty (self : OrSet E) : OrSet E :=
  { self with adds := self.adds.retain fun _ dots => !dots.entries.isEmpty }

def mergeDelta (self : OrSet E) (delta : OrSetDelta E) : OrSet E :=
  delta.adds.foldl (fun s a => s.applyAdd a.1 a.2)
    (delta.tombstones.foldl (fun s t => s.applyTombstone t.1 t.2) self).dropEmpty

def fullState (self : OrSet E) (dvv : DotVersionVector) : OrSetDelta E :=
  { adds := self.adds.entries.flatMap fun e => e.2.keys.map fun dot => (e.1, dot)
    tombstones := self.tombstones.toPairs
    context := dvv.effectiveMap
    dotNode := dvv.dot.nodeId
    dotCounter := dvv.dot.counter }

def deltaSince (self : OrSet E) (remoteKnowledge : CausalContext) (dvv : DotVersionVector) :
    OrSetDelta E :=
  { adds :=
      self.adds.entries.flatMap fun e =>
        (e.2.keys.filter fun dot => decide (counterAt remoteKnowledge dot.nodeId < dot.counter)).map
          fun dot => (e.1, dot)
    tombstones :=
      self.tombstones.toPairs.filter fun t =>
        decide (counterAt remoteKnowledge t.2.nodeId < t.2.counter)
    context := dvv.effectiveMap
    dotNode := dvv.dot.nodeId
    dotCounter := dvv.dot.counter }

def performGc (self : OrSet E) (frontier : DotVersionVector) : OrSet E :=
  { self with
    tombstones := self.tombstones.retain fun _ removeDot => !frontier.dominatesDot removeDot }

/-! ## Reading the set -/

/-- `dot` is one of the dots that justify `elem`. -/
def HasAdd (self : OrSet E) (elem : E) (dot : Dot) : Prop :=
  ∃ dots, self.adds.lookup elem = some dots ∧ dot ∈ dots

variable (s : OrSet E) (e x : E) (a d r : Dot)

theorem hasAdd_iff : s.HasAdd e a ↔ a ∈ (s.adds.lookup e).getD ∅ := by
  rw [HasAdd]
  cases s.adds.lookup e <;> simp

instance : Decidable (s.HasAdd e a) := decidable_of_iff _ (s.hasAdd_iff e a).symm

@[simp] theorem not_hasAdd_new : ¬ (new : OrSet E).HasAdd e a := by
  simp [new, HasAdd]

omit [DecidableEq E] in
theorem anyVisible_iff (dots : HashSet Dot) :
    s.anyVisible dots = true ↔ ∃ d ∈ dots, d ∉ s.tombstones := by
  simp [anyVisible, List.any_eq_true, AList.mem_keys]

theorem contains_iff : s.contains e = true ↔ ∃ d, s.HasAdd e d ∧ d ∉ s.tombstones := by
  rw [contains]
  constructor
  · intro h
    cases hl : s.adds.lookup e with
    | none => simp [hl] at h
    | some dots =>
      rw [hl, Option.map_some, Option.getD_some, anyVisible_iff] at h
      obtain ⟨d, hd, hnt⟩ := h
      exact ⟨d, ⟨dots, hl, hd⟩, hnt⟩
  · rintro ⟨d, ⟨dots, hl, hd⟩, hnt⟩
    rw [hl, Option.map_some, Option.getD_some, anyVisible_iff]
    exact ⟨d, hd, hnt⟩

theorem mem_elements : e ∈ s.elements ↔ s.contains e = true := by
  have hentry : ∀ dots, (⟨e, dots⟩ : Sigma fun _ : E => HashSet Dot) ∈ s.adds.entries ↔
      s.adds.lookup e = some dots := fun dots => AList.mem_lookup_iff.symm
  simp only [elements, List.mem_map, List.mem_filter]
  constructor
  · rintro ⟨⟨e', dots⟩, ⟨hmem, hvis⟩, rfl⟩
    rw [contains, (hentry dots).mp hmem]
    exact hvis
  · intro h
    cases hl : s.adds.lookup e with
    | none => simp [contains, hl] at h
    | some dots =>
      rw [contains, hl] at h
      exact ⟨⟨e, dots⟩, ⟨(hentry dots).mpr hl, h⟩, rfl⟩

/-! ## Local operations -/

private theorem hasAdd_upsert :
    OrSet.HasAdd { s with adds := s.adds.upsert x fun dots => (dots.getD ∅).insert d () } e a ↔
      s.HasAdd e a ∨ (e = x ∧ a = d) := by
  simp only [HasAdd, AList.lookup_upsert]
  by_cases h : e = x
  · subst h
    simp only [if_true, Option.some.injEq, exists_eq_left', AList.mem_insert, true_and]
    cases s.adds.lookup e with
    | none => simp
    | some dots => simpa using Or.comm
  · simp [h]

theorem hasAdd_applyLocal_add :
    (s.applyLocal d (.add x)).HasAdd e a ↔ s.HasAdd e a ∨ (e = x ∧ a = d) :=
  hasAdd_upsert s e x a d

theorem hasAdd_applyLocal_remove :
    (s.applyLocal d (.remove x)).HasAdd e a ↔ s.HasAdd e a ∧ e ≠ x := by
  simp only [applyLocal, HasAdd, AList.lookup_erase_eq]
  by_cases h : e = x <;> simp [h]

@[simp] theorem tombstones_applyLocal_add : (s.applyLocal d (.add x)).tombstones = s.tombstones :=
  rfl

theorem lookup_tombstones_applyLocal_remove :
    ((s.applyLocal d (.remove x)).tombstones.lookup a = some r) ↔
      (s.HasAdd x a ∧ r = d) ∨ (¬ s.HasAdd x a ∧ s.tombstones.lookup a = some r) := by
  have hloop : ∀ (l : List Dot) (t : HashMap Dot Dot),
      (l.foldl (fun t b => t.insert b d) t).lookup a = if a ∈ l then some d else t.lookup a := by
    intro l
    induction l with
    | nil => intro t; simp
    | cons b l ih =>
      intro t
      rw [List.foldl_cons, ih, AList.lookup_insert_eq]
      by_cases hb : a = b <;> by_cases hl : a ∈ l <;> simp [hb, hl]
  have hmem : a ∈ ((s.adds.lookup x).getD ∅).keys ↔ s.HasAdd x a := by
    rw [← AList.mem_keys, HasAdd]
    cases s.adds.lookup x <;> simp
  rw [applyLocal, hloop]
  by_cases h : s.HasAdd x a
  · rw [if_pos (hmem.mpr h)]
    simp [h, eq_comm]
  · rw [if_neg (fun hk => h (hmem.mp hk))]
    simp [h]

/-! ## Merging -/

theorem hasAdd_applyTombstone : (s.applyTombstone d r).HasAdd e a ↔ s.HasAdd e a ∧ a ≠ d := by
  simp only [applyTombstone, HasAdd, AList.lookup_mapValues, Option.map_eq_some_iff]
  constructor
  · rintro ⟨_, ⟨dots, hl, rfl⟩, hmem⟩
    obtain ⟨hne, hmem⟩ := AList.mem_erase.mp hmem
    exact ⟨⟨dots, hl, hmem⟩, hne⟩
  · rintro ⟨⟨dots, hl, hmem⟩, hne⟩
    exact ⟨_, ⟨dots, hl, rfl⟩, AList.mem_erase.mpr ⟨hne, hmem⟩⟩

private theorem tombstoneLoop (l : List (Dot × Dot)) : ∀ s : OrSet E,
    (∀ e a, (l.foldl (fun s t => s.applyTombstone t.1 t.2) s).HasAdd e a ↔
      s.HasAdd e a ∧ ∀ r, (a, r) ∉ l) ∧
    (l.foldl (fun s t => s.applyTombstone t.1 t.2) s).tombstones =
      l.foldl (fun m t => m.insert t.1 t.2) s.tombstones := by
  induction l with
  | nil => intro s; simp
  | cons t l ih =>
    obtain ⟨b, q⟩ := t
    intro s
    obtain ⟨hadd, htomb⟩ := ih (s.applyTombstone b q)
    refine ⟨fun e a => ?_, htomb⟩
    rw [List.foldl_cons, hadd, hasAdd_applyTombstone]
    constructor
    · rintro ⟨⟨h, hne⟩, hl⟩
      refine ⟨h, fun r hr => ?_⟩
      rcases List.mem_cons.mp hr with heq | hr
      · exact hne (Prod.mk.inj heq).1
      · exact hl r hr
    · rintro ⟨h, hl⟩
      exact ⟨⟨h, fun heq => hl q (by simp [heq])⟩, fun r hr => hl r (List.mem_cons_of_mem _ hr)⟩

@[simp] theorem hasAdd_dropEmpty : s.dropEmpty.HasAdd e a ↔ s.HasAdd e a := by
  simp only [dropEmpty, HasAdd, AList.lookup_retain, Option.filter_eq_some_iff]
  constructor
  · rintro ⟨dots, ⟨hl, -⟩, hmem⟩
    exact ⟨dots, hl, hmem⟩
  · rintro ⟨dots, hl, hmem⟩
    refine ⟨dots, ⟨hl, ?_⟩, hmem⟩
    obtain ⟨u, hu⟩ := AList.mem_iff_lookup.mp hmem
    have hentry := AList.mem_lookup_iff.mp (Option.mem_def.mpr hu)
    cases hd : dots.entries with
    | nil => rw [hd] at hentry; cases hentry
    | cons => rfl

private theorem addLoop (l : List (E × Dot)) : ∀ s : OrSet E,
    (∀ e a, (l.foldl (fun s p => s.applyAdd p.1 p.2) s).HasAdd e a ↔
      s.HasAdd e a ∨ ((e, a) ∈ l ∧ a ∉ s.tombstones)) ∧
    (l.foldl (fun s p => s.applyAdd p.1 p.2) s).tombstones = s.tombstones := by
  induction l with
  | nil => intro s; simp
  | cons p l ih =>
    obtain ⟨x, d⟩ := p
    intro s
    have htomb : (s.applyAdd x d).tombstones = s.tombstones := by
      rw [applyAdd]; split <;> rfl
    have hstep : ∀ e a, (s.applyAdd x d).HasAdd e a ↔
        s.HasAdd e a ∨ (e = x ∧ a = d ∧ a ∉ s.tombstones) := by
      intro e a
      rw [applyAdd]
      split
      · next h =>
        refine ⟨Or.inl, ?_⟩
        rintro (h' | ⟨-, rfl, hnt⟩)
        · exact h'
        · exact absurd h hnt
      · next h =>
        rw [hasAdd_upsert]
        refine or_congr_right ⟨?_, fun ⟨he, ha, _⟩ => ⟨he, ha⟩⟩
        rintro ⟨rfl, rfl⟩
        exact ⟨rfl, rfl, h⟩
    obtain ⟨hadd, ht⟩ := ih (s.applyAdd x d)
    refine ⟨fun e a => ?_, ht.trans htomb⟩
    rw [List.foldl_cons, hadd, hstep, htomb, List.mem_cons, Prod.mk.injEq]
    tauto

variable (δ : OrSetDelta E)

theorem tombstones_mergeDelta :
    (s.mergeDelta δ).tombstones = δ.tombstones.foldl
      (fun m t => m.insert t.1 t.2) s.tombstones := by
  rw [mergeDelta, (addLoop δ.adds _).2, dropEmpty, (tombstoneLoop δ.tombstones s).2]

theorem mem_tombstones_mergeDelta :
    a ∈ (s.mergeDelta δ).tombstones ↔ (∃ r, (a, r) ∈ δ.tombstones) ∨ a ∈ s.tombstones := by
  rw [tombstones_mergeDelta, AList.mem_foldl_insert]

theorem hasAdd_mergeDelta :
    (s.mergeDelta δ).HasAdd e a ↔
      (s.HasAdd e a ∧ ∀ r, (a, r) ∉ δ.tombstones) ∨
        ((e, a) ∈ δ.adds ∧ a ∉ (s.mergeDelta δ).tombstones) := by
  have htomb : (s.mergeDelta δ).tombstones =
      (δ.tombstones.foldl (fun s t => s.applyTombstone t.1 t.2) s).dropEmpty.tombstones :=
    (addLoop δ.adds _).2
  rw [htomb, mergeDelta, (addLoop δ.adds _).1, hasAdd_dropEmpty, (tombstoneLoop δ.tombstones s).1]

/-! ## Deltas and garbage collection -/

variable (K : CausalContext) (dvv : DotVersionVector)

theorem mem_adds_deltaSince :
    (e, a) ∈ (s.deltaSince K dvv).adds ↔ s.HasAdd e a ∧ counterAt K a.nodeId < a.counter := by
  simp only [deltaSince, List.mem_flatMap, List.mem_map, List.mem_filter, decide_eq_true_eq, HasAdd]
  constructor
  · rintro ⟨⟨e', dots⟩, hmem, d, ⟨hd, hlt⟩, heq⟩
    obtain ⟨rfl, rfl⟩ := Prod.mk.inj heq
    exact ⟨⟨dots, AList.mem_lookup_iff.mpr hmem, AList.mem_keys.mpr hd⟩, hlt⟩
  · rintro ⟨⟨dots, hl, hd⟩, hlt⟩
    exact ⟨⟨e, dots⟩, AList.mem_lookup_iff.mp hl, a, ⟨AList.mem_keys.mp hd, hlt⟩, rfl⟩

omit [DecidableEq E] in
theorem mem_tombstones_deltaSince :
    (a, r) ∈ (s.deltaSince K dvv).tombstones ↔
      s.tombstones.lookup a = some r ∧ counterAt K r.nodeId < r.counter := by
  simp only [deltaSince, List.mem_filter, AList.mem_toPairs, decide_eq_true_eq]

theorem mem_adds_fullState : (e, a) ∈ (s.fullState dvv).adds ↔ s.HasAdd e a := by
  simp only [fullState, List.mem_flatMap, List.mem_map, HasAdd]
  constructor
  · rintro ⟨⟨e', dots⟩, hmem, d, hd, heq⟩
    obtain ⟨rfl, rfl⟩ := Prod.mk.inj heq
    exact ⟨dots, AList.mem_lookup_iff.mpr hmem, AList.mem_keys.mpr hd⟩
  · rintro ⟨dots, hl, hd⟩
    exact ⟨⟨e, dots⟩, AList.mem_lookup_iff.mp hl, a, AList.mem_keys.mp hd, rfl⟩

omit [DecidableEq E] in
theorem mem_tombstones_fullState :
    (a, r) ∈ (s.fullState dvv).tombstones ↔ s.tombstones.lookup a = some r := by
  simp only [fullState, AList.mem_toPairs]

omit [DecidableEq E] in
theorem effectiveCounter_causalContext (n : NodeId) :
    (s.deltaSince K dvv).causalContext.effectiveCounter n = dvv.effectiveCounter n := by
  have hctx := dvv.counterAt_effectiveMap n
  have hdot := dvv.dotCounter_le_effectiveCounter
  simp only [OrSetDelta.causalContext, deltaSince, DotVersionVector.effectiveCounter] at hctx hdot ⊢
  rw [hctx]
  split
  · next h => subst h; simp
  · rfl

omit [DecidableEq E] in
@[simp] theorem causalContext_known_deltaSince :
    (s.deltaSince K dvv).causalContext.known = dvv.known := by
  ext x
  simp only [DotVersionVector.known, effectiveCounter_causalContext]

omit [DecidableEq E] in
theorem lookup_tombstones_performGc (frontier : DotVersionVector) :
    (s.performGc frontier).tombstones.lookup a = some r ↔
      s.tombstones.lookup a = some r ∧ r ∉ frontier.known := by
  simp only [performGc, AList.lookup_retain, Option.filter_eq_some_iff, Bool.not_eq_true',
    ← Bool.not_eq_true, frontier.dominatesDot_iff]

/-! ## The abstract view -/

/-- What the set shows to the observed-remove library when its replica knows `known`. -/
def view (known : Set Dot) : ObservedRemove.View Dot E where
  adds := s.HasAdd
  tombs a r := s.tombstones.lookup a = some r
  known := known

end OrSet

/-- An operation as the library names it. -/
def OrSetOp.toOp {E : Type} : OrSetOp E → ObservedRemove.Op E
  | .add elem => .add elem
  | .remove elem => .remove elem

/-- A delta as a view. -/
def OrSetDelta.view {E : Type} (δ : OrSetDelta E) : ObservedRemove.View Dot E where
  adds e a := (e, a) ∈ δ.adds
  tombs a r := (a, r) ∈ δ.tombstones
  known := δ.causalContext.known

namespace OrSet

open ObservedRemove (Event Faithful Merged Carries Gone)

variable {E : Type} [DecidableEq E] (s : OrSet E) (δ : OrSetDelta E) (K : CausalContext)
  (dvv : DotVersionVector)

theorem tombstoned_view {known : Set Dot} {a : Dot} :
    (s.view known).Tombstoned a ↔ a ∈ s.tombstones :=
  AList.mem_iff_lookup.symm

theorem faithful_applyLocal {h : Set (Event Dot E)} {G known : Set Dot} {ev : Event Dot E}
    {op : OrSetOp E} (hf : Faithful h G (s.view known)) (hfresh : ev.dot ∉ known)
    (hnew : ∀ ev' ∈ h, ev'.dot ≠ ev.dot) (hpast : ev.past = known) (hop : ev.op = op.toOp) :
    Faithful (insert ev h) G ((s.applyLocal ev.dot op).view (insert ev.dot known)) := by
  cases op with
  | add x =>
    exact hf.local_add hfresh hnew hpast rfl hop (fun e a => s.hasAdd_applyLocal_add e x a ev.dot)
      fun a r => Iff.rfl
  | remove x =>
    exact hf.local_remove hfresh hnew hpast rfl hop
      (fun e a => s.hasAdd_applyLocal_remove e x a ev.dot)
      fun a r => s.lookup_tombstones_applyLocal_remove x a ev.dot r

/-- Reclaiming tombstones keeps a view faithful, if every add that loses its tombstone is in `G`. -/
theorem faithful_performGc {h : Set (Event Dot E)} {G G' known : Set Dot} {v : CausalContext}
    {nodeId : NodeId} (hf : Faithful h G (s.view known)) (hG : G ⊆ G')
    (hreclaimed : ∀ a r, s.tombstones.lookup a = some r →
      r ∈ (frontierDvv nodeId v).known → a ∈ G') :
    Faithful h G' ((s.performGc (frontierDvv nodeId v)).view known) := by
  refine (hf.mono hG).forget (fun e a => Iff.rfl) (fun a r ht => ?_) (fun a ht => ?_) rfl
  · exact ((s.lookup_tombstones_performGc a r _).mp ht).1
  · obtain ⟨r, hr⟩ := ht
    by_cases hcovered : r ∈ (frontierDvv nodeId v).known
    · exact Or.inr (hreclaimed a r hr hcovered)
    · exact Or.inl ⟨r, (s.lookup_tombstones_performGc a r _).mpr ⟨hr, hcovered⟩⟩

/-- `mergeDelta` is the merge of the library. -/
theorem merged_mergeDelta :
    Merged (s.view dvv.known) δ.view ((s.mergeDelta δ).view (dvv.merge δ.causalContext).known) where
  known := dvv.known_merge δ.causalContext
  tombs_of a r h := by
    change (s.mergeDelta δ).tombstones.lookup a = some r at h
    rw [tombstones_mergeDelta] at h
    exact AList.lookup_foldl_insert_some h
  tombstoned_iff a := by
    rw [tombstoned_view, tombstoned_view, mem_tombstones_mergeDelta]
    rfl
  adds_iff e a := by
    rw [tombstoned_view]
    exact (s.hasAdd_mergeDelta e a δ).trans
      (by simp [ObservedRemove.View.Tombstoned, view, OrSetDelta.view])

/-- The delta of a faithful replica carries what any receiver that knows at least `K` needs. -/
theorem carries_deltaSince {h : Set (Event Dot E)} {G R : Set Dot}
    (hf : Faithful h G (s.view dvv.known))
    (hK : ∀ x : Dot, x.counter ≤ counterAt K x.nodeId → x ∈ R) (hG : ∀ a ∈ G, Gone h R a) :
    Carries h R (s.deltaSince K dvv).view := by
  have hsub : { x : Dot | x.counter ≤ counterAt K x.nodeId } ⊆ R := hK
  refine hf.carries hsub hG (fun e a => ?_) (fun a r => ?_) (s.causalContext_known_deltaSince K dvv)
  · exact (s.mem_adds_deltaSince e a K dvv).trans (and_congr_right fun _ => Nat.not_le.symm)
  · exact (s.mem_tombstones_deltaSince a r K dvv).trans (and_congr_right fun _ => Nat.not_le.symm)

theorem carries_fullState {h : Set (Event Dot E)} (hf : Faithful h ∅ (s.view dvv.known))
    (R : Set Dot) :
    Carries h R (s.fullState dvv).view := by
  refine hf.carries (Set.empty_subset R) (fun a ha => ha.elim) (fun e a => ?_) (fun a r => ?_) ?_
  · exact (s.mem_adds_fullState e a dvv).trans (and_iff_left (Set.notMem_empty a)).symm
  · exact (s.mem_tombstones_fullState a r dvv).trans (and_iff_left (Set.notMem_empty r)).symm
  · exact s.causalContext_known_deltaSince ∅ dvv

end OrSet

end ExperimentalCrdt
