import ExperimentalCrdt.Crdt.OrSet

/-!
# The representation of the set

The readers of `or_set.rs` look at the tombstones again on every call. `Clean` says when they need
not: no dot of `adds` has a tombstone and no element is kept without a dot. Then an element is
present exactly when it is a key of `adds`, and reclaiming tombstones changes nothing that a reader
sees.

The second half is about a replica that merges delta after delta. `hasAdd_mergeDeltas` describes
what it then holds by the set of the deltas alone, so neither their order nor a repetition matters
(`mergeDeltas_order_irrelevant`).
-/

namespace ExperimentalCrdt

namespace OrSet

variable {E : Type} [DecidableEq E]

def len (self : OrSet E) : Nat := (self.adds.entries.filter fun e => self.anyVisible e.2).length

/-- Merge one delta after another. -/
def mergeDeltas (self : OrSet E) (deltas : List (OrSetDelta E)) : OrSet E :=
  deltas.foldl mergeDelta self

/-- Every element that is kept has a dot. -/
def Inhabited (self : OrSet E) : Prop := ∀ e ∈ self.adds, ∃ a, self.HasAdd e a

structure Clean (s : OrSet E) : Prop where
  untombstoned : ∀ e a, s.HasAdd e a → a ∉ s.tombstones
  inhabited : s.Inhabited

/-- A dot justifies one element at most. -/
def OneElement (self : OrSet E) : Prop := ∀ e e' a, self.HasAdd e a → self.HasAdd e' a → e = e'

variable {s : OrSet E} {e x : E} {a d : Dot}

/-! ## What a reader sees of a clean set -/

theorem mem_adds_of_hasAdd (h : s.HasAdd e a) : e ∈ s.adds := by
  obtain ⟨dots, hl, -⟩ := h
  exact AList.mem_of_lookup hl

namespace Clean

theorem new : (OrSet.new : OrSet E).Clean where
  untombstoned e a h := absurd h (not_hasAdd_new e a)
  inhabited e h := absurd h (AList.notMem_empty e)

theorem contains_iff (h : s.Clean) : s.contains e = true ↔ e ∈ s.adds := by
  rw [OrSet.contains_iff]
  constructor
  · intro ⟨a, ha, _⟩
    exact mem_adds_of_hasAdd ha
  · intro he
    obtain ⟨a, ha⟩ := h.inhabited e he
    exact ⟨a, ha, h.untombstoned e a ha⟩

theorem filter_anyVisible (h : s.Clean) :
    (s.adds.entries.filter fun p => s.anyVisible p.2) = s.adds.entries := by
  apply List.filter_eq_self.mpr
  intro p hp
  have hl : s.adds.lookup p.1 = some p.2 := AList.mem_lookup_iff.mpr hp
  have hc : s.contains p.1 = true := h.contains_iff.mpr (AList.mem_of_lookup hl)
  rw [contains, hl] at hc
  exact hc

theorem elements_eq (h : s.Clean) : s.elements = s.adds.keys := by
  rw [elements, h.filter_anyVisible]
  rfl

theorem nodup_elements (h : s.Clean) : s.elements.Nodup := by
  rw [h.elements_eq]
  exact s.adds.nodupKeys

theorem len_eq (h : s.Clean) : s.len = s.adds.keys.length := by
  rw [len, h.filter_anyVisible]
  exact (List.length_map _).symm

/-! ## Operations keep a set clean -/

theorem performGc (h : s.Clean) (frontier : DotVersionVector) : (s.performGc frontier).Clean where
  untombstoned e a ha hmem := by
    obtain ⟨r, hr⟩ := AList.mem_iff_lookup.mp hmem
    have hold := ((s.lookup_tombstones_performGc a r frontier).mp hr).1
    exact h.untombstoned e a ha (AList.mem_of_lookup hold)
  inhabited := h.inhabited

theorem contains_performGc (h : s.Clean) (frontier : DotVersionVector) :
    (s.performGc frontier).contains e = s.contains e := by
  apply Bool.eq_iff_iff.mpr
  rw [(h.performGc frontier).contains_iff, h.contains_iff]
  rfl

theorem add (h : s.Clean) (hfresh : d ∉ s.tombstones) : (s.applyLocal d (.add x)).Clean where
  untombstoned e a ha := by
    rw [tombstones_applyLocal_add]
    rcases (s.hasAdd_applyLocal_add e x a d).mp ha with ha | ⟨-, rfl⟩
    · exact h.untombstoned e a ha
    · exact hfresh
  inhabited e he := by
    rcases (AList.mem_insert _).mp he with rfl | he
    · exact ⟨d, (s.hasAdd_applyLocal_add e e d d).mpr (Or.inr ⟨rfl, rfl⟩)⟩
    · obtain ⟨a, ha⟩ := h.inhabited e he
      exact ⟨a, (s.hasAdd_applyLocal_add e x a d).mpr (Or.inl ha)⟩

theorem remove (h : s.Clean) (hone : s.OneElement) : (s.applyLocal d (.remove x)).Clean where
  untombstoned e a ha hmem := by
    -- the dots of the removed element are tombstoned, and no other element relies on them
    obtain ⟨ha, hne⟩ := (s.hasAdd_applyLocal_remove e x a d).mp ha
    obtain ⟨r, hr⟩ := AList.mem_iff_lookup.mp hmem
    rcases (s.lookup_tombstones_applyLocal_remove x a d r).mp hr with ⟨hx, -⟩ | ⟨-, hold⟩
    · exact hne (hone e x a ha hx)
    · exact h.untombstoned e a ha (AList.mem_of_lookup hold)
  inhabited e he := by
    obtain ⟨hne, he⟩ := AList.mem_erase.mp he
    obtain ⟨a, ha⟩ := h.inhabited e he
    exact ⟨a, (s.hasAdd_applyLocal_remove e x a d).mpr ⟨ha, hne⟩⟩

theorem contains_add (h : s.Clean) (hfresh : d ∉ s.tombstones) :
    (s.applyLocal d (.add x)).contains e = true ↔ e = x ∨ s.contains e = true := by
  rw [(h.add hfresh).contains_iff, h.contains_iff]
  exact AList.mem_insert _

theorem contains_remove (h : s.Clean) (hone : s.OneElement) :
    (s.applyLocal d (.remove x)).contains e = true ↔ e ≠ x ∧ s.contains e = true := by
  rw [(h.remove hone).contains_iff, h.contains_iff]
  exact AList.mem_erase

end Clean

theorem inhabited_dropEmpty (s : OrSet E) : s.dropEmpty.Inhabited := by
  intro e he
  obtain ⟨dots, hl⟩ := AList.mem_iff_lookup.mp he
  simp only [dropEmpty, AList.lookup_retain, Option.filter_eq_some_iff] at hl
  obtain ⟨hl, hne⟩ := hl
  obtain ⟨p, hp⟩ : ∃ p, p ∈ dots.entries := List.exists_mem_of_ne_nil _ (by simpa using hne)
  have hmem : p.1 ∈ dots := AList.mem_of_lookup (AList.mem_lookup_iff.mpr hp)
  exact ⟨p.1, (hasAdd_dropEmpty s e p.1).mpr ⟨dots, hl, hmem⟩⟩

theorem Inhabited.applyAdd (h : s.Inhabited) : (s.applyAdd x d).Inhabited := by
  unfold OrSet.applyAdd
  split
  · exact h
  · intro e he
    rcases (AList.mem_insert _).mp he with rfl | he
    · exact ⟨d, (s.hasAdd_applyLocal_add e e d d).mpr (Or.inr ⟨rfl, rfl⟩)⟩
    · obtain ⟨a, ha⟩ := h e he
      exact ⟨a, (s.hasAdd_applyLocal_add e x a d).mpr (Or.inl ha)⟩

theorem inhabited_mergeDelta (s : OrSet E) (δ : OrSetDelta E) : (s.mergeDelta δ).Inhabited := by
  have hloop : ∀ (l : List (E × Dot)) (t : OrSet E), t.Inhabited →
      (l.foldl (fun s p => s.applyAdd p.1 p.2) t).Inhabited := by
    intro l
    induction l with
    | nil => exact fun t ht => ht
    | cons p l ih => exact fun t ht => ih _ ht.applyAdd
  exact hloop δ.adds _ (inhabited_dropEmpty _)

theorem Clean.mergeDelta (h : s.Clean) (δ : OrSetDelta E) : (s.mergeDelta δ).Clean where
  untombstoned e a ha hmem := by
    rcases (s.hasAdd_mergeDelta e a δ).mp ha with ⟨hold, hnone⟩ | ⟨-, hnot⟩
    · rcases (s.mem_tombstones_mergeDelta a δ).mp hmem with ⟨r, hr⟩ | hmem
      · exact hnone r hr
      · exact h.untombstoned e a hold hmem
    · exact hnot hmem
  inhabited := inhabited_mergeDelta s δ

/-! ## Merging several deltas -/

variable (s) (e) (a) (deltas : List (OrSetDelta E))

theorem mem_tombstones_mergeDeltas :
    a ∈ (s.mergeDeltas deltas).tombstones ↔
      (∃ δ ∈ deltas, ∃ r, (a, r) ∈ δ.tombstones) ∨ a ∈ s.tombstones := by
  induction deltas generalizing s with
  | nil => simp [mergeDeltas]
  | cons δ deltas ih =>
    show a ∈ ((s.mergeDelta δ).mergeDeltas deltas).tombstones ↔ _
    rw [ih, mem_tombstones_mergeDelta, List.exists_mem_cons_iff, or_left_comm, or_assoc]

/-- An add that was there before stays unless a delta has its tombstone; one that came with a delta
is there unless it ended up with a tombstone, from whatever delta. -/
theorem hasAdd_mergeDeltas :
    (s.mergeDeltas deltas).HasAdd e a ↔
      (s.HasAdd e a ∧ ∀ δ ∈ deltas, ∀ r, (a, r) ∉ δ.tombstones) ∨
        ((∃ δ ∈ deltas, (e, a) ∈ δ.adds) ∧ a ∉ (s.mergeDeltas deltas).tombstones) := by
  induction deltas generalizing s with
  | nil => simp [mergeDeltas]
  | cons δ deltas ih =>
    show ((s.mergeDelta δ).mergeDeltas deltas).HasAdd e a ↔ _ ∨
      _ ∧ a ∉ ((s.mergeDelta δ).mergeDeltas deltas).tombstones
    rw [ih, hasAdd_mergeDelta, mem_tombstones_mergeDeltas, mem_tombstones_mergeDelta,
      List.exists_mem_cons_iff, List.forall_mem_cons]
    -- the deltas that follow carry a tombstone of `a`, or they do not
    by_cases hlater : ∃ δ ∈ deltas, ∃ r, (a, r) ∈ δ.tombstones
    · have hnot : ¬ ∀ δ ∈ deltas, ∀ r, (a, r) ∉ δ.tombstones := by simpa using hlater
      simp only [hlater, hnot, true_or, not_true, and_false, or_self]
    · have hall : ∀ δ ∈ deltas, ∀ r, (a, r) ∉ δ.tombstones := by simpa using hlater
      have hδ : (∀ r, (a, r) ∉ δ.tombstones) ↔ ¬ ∃ r, (a, r) ∈ δ.tombstones := by simp
      simp only [hlater, false_or, hδ]
      tauto

/-- The pairs that justify what a reader sees. -/
def livePairs : Set (E × Dot) := { p | s.HasAdd p.1 p.2 ∧ p.2 ∉ s.tombstones }

/-- The add-dots that are known to be removed. -/
def tombstoned : Set Dot := { a | a ∈ s.tombstones }

/-- **Neither the order of deltas nor their repetition matters**: two lists that contain the same
deltas lead to the same live pairs and to the same tombstoned add-dots, whether or not the set was
clean before. -/
theorem mergeDeltas_order_irrelevant (s : OrSet E) (deltas deltas' : List (OrSetDelta E))
    (hsame : ∀ δ, δ ∈ deltas ↔ δ ∈ deltas') :
    (∀ e a, (s.mergeDeltas deltas).HasAdd e a ↔ (s.mergeDeltas deltas').HasAdd e a) ∧
      (s.mergeDeltas deltas).livePairs = (s.mergeDeltas deltas').livePairs ∧
      (s.mergeDeltas deltas).tombstoned = (s.mergeDeltas deltas').tombstoned := by
  have htombs : ∀ a, a ∈ (s.mergeDeltas deltas).tombstones ↔
      a ∈ (s.mergeDeltas deltas').tombstones :=
    fun a => by simp only [mem_tombstones_mergeDeltas, hsame]
  have hadds : ∀ e a, (s.mergeDeltas deltas).HasAdd e a ↔ (s.mergeDeltas deltas').HasAdd e a :=
    fun e a => by simp only [hasAdd_mergeDeltas, hsame, htombs]
  refine ⟨hadds, ?_, ?_⟩
  · ext p
    exact and_congr (hadds p.1 p.2) (not_congr (htombs p.2))
  · ext a
    exact htombs a

/-- An add, and a remove that had observed it. -/
def addX : OrSetDelta String :=
  { adds := [("x", ⟨"A", 1⟩)], tombstones := [], context := ∅, dotNode := "A", dotCounter := 1 }

def removeX : OrSetDelta String :=
  { adds := [], tombstones := [(⟨"A", 1⟩, ⟨"B", 1⟩)], context := ∅, dotNode := "B",
    dotCounter := 1 }

/-- The remove may come first, and again. -/
theorem mergeDeltas_order_irrelevant_removeFirst :
    (new.mergeDeltas [addX, removeX]).livePairs =
      (new.mergeDeltas [removeX, addX, removeX]).livePairs ∧
      (new.mergeDeltas [addX, removeX]).tombstoned =
        (new.mergeDeltas [removeX, addX, removeX]).tombstoned :=
  (mergeDeltas_order_irrelevant new [addX, removeX] [removeX, addX, removeX] fun δ => by
    simp only [List.mem_cons, List.not_mem_nil, or_false]
    tauto).2

end OrSet

end ExperimentalCrdt
