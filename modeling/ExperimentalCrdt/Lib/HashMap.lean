import Mathlib.Algebra.Order.BigOperators.Group.List
import Mathlib.Algebra.Order.Group.Nat
import Mathlib.Algebra.Ring.Nat
import Mathlib.Data.List.AList
import Mathlib.Data.List.Dedup
import Mathlib.Data.List.Induction
import Mathlib.Data.Set.Basic
import Mathlib.Tactic.Common

/-!
# Hash maps with an explicit iteration order

A hash map is an `AList` with a constant value type: the keys are distinct, and the order of
`entries` is the order an iteration happens to visit them in. `retain`, `mapValues` and `upsert`
(the entry API: read the old value if there is one, store a new one) are described by what they do
to `lookup`, and the fold lemmas say what a loop over one map that updates another one key by key
leaves behind, whatever the order.
-/

/-- A finite map together with its iteration order. -/
abbrev HashMap (K V : Type) := AList fun _ : K => V

/-- A finite set together with its iteration order: the map of its members to `()`. -/
abbrev HashSet (K : Type) := HashMap K Unit

namespace AList

variable {K V W : Type} [DecidableEq K]

/-- The entries in iteration order. -/
def toPairs (m : HashMap K V) : List (K × V) := m.entries.map fun e => (e.1, e.2)

/-- Keep the entries that satisfy `p`. -/
def retain (p : K → V → Bool) (m : HashMap K V) : HashMap K V :=
  ⟨m.entries.filter fun e => p e.1 e.2, m.nodupKeys.sublist List.filter_sublist⟩

/-- Replace every value by `f` of its key and itself; the new type may depend on the key. -/
def mapWithKey {B : K → Type} (f : (k : K) → V → B k) (m : HashMap K V) : AList B :=
  ⟨m.entries.map fun e => ⟨e.1, f e.1 e.2⟩, by
    have h := m.nodupKeys
    simpa [List.NodupKeys, List.keys, List.map_map, Function.comp_def] using h⟩

/-- Apply `f` to every value in place. -/
def mapValues (f : V → W) (m : HashMap K V) : HashMap K W := m.mapWithKey fun _ => f

/-- Store `f` of the old value (`none` when the key is vacant) under `k`. -/
def upsert (m : HashMap K V) (k : K) (f : Option V → V) : HashMap K V := m.insert k (f (m.lookup k))

/-- The map collected from a list of pairs; a later pair replaces an earlier one. -/
def ofPairs (l : List (K × V)) : HashMap K V := l.foldl (fun m e => m.insert e.1 e.2) ∅

/-- The set collected from a list. -/
def ofKeys (l : List K) : HashSet K := l.foldl (fun s k => s.insert k ()) ∅

/-- The same map, with its entries in the opposite order. -/
def reversed (m : HashMap K V) : HashMap K V :=
  ⟨m.entries.reverse, (List.perm_nodupKeys (List.reverse_perm _)).mpr m.nodupKeys⟩

/-! ## Lookups -/

theorem lookup_insert_eq (m : HashMap K V) (k k' : K) (v : V) :
    (m.insert k v).lookup k' = if k' = k then some v else m.lookup k' := by
  split
  · next h => subst h; exact lookup_insert m
  · next h => exact lookup_insert_ne h

theorem lookup_erase_eq (m : HashMap K V) (k k' : K) :
    (m.erase k).lookup k' = if k' = k then none else m.lookup k' := by
  split
  · next h => subst h; exact lookup_erase _ m
  · next h => exact lookup_erase_ne h

theorem lookup_upsert (m : HashMap K V) (k k' : K) (f : Option V → V) :
    (m.upsert k f).lookup k' = if k' = k then some (f (m.lookup k)) else m.lookup k' :=
  lookup_insert_eq m k k' _

theorem mem_toPairs {m : HashMap K V} {k : K} {v : V} : (k, v) ∈ m.toPairs ↔
    m.lookup k = some v := by
  have h : (k, v) ∈ m.toPairs ↔ (⟨k, v⟩ : Sigma fun _ : K => V) ∈ m.entries := by
    constructor
    · intro hmem
      obtain ⟨⟨k', v'⟩, he, heq⟩ := List.mem_map.mp hmem
      obtain ⟨rfl, rfl⟩ := Prod.mk.inj heq
      exact he
    · intro hmem
      exact List.mem_map.mpr ⟨⟨k, v⟩, hmem, rfl⟩
  rw [h, ← mem_lookup_iff, Option.mem_def]

theorem mem_iff_lookup {m : HashMap K V} {k : K} : k ∈ m ↔ ∃ v, m.lookup k = some v := by
  rw [← lookup_isSome, Option.isSome_iff_exists]

theorem mem_of_lookup {m : HashMap K V} {k : K} {v : V} (h : m.lookup k = some v) : k ∈ m :=
  mem_iff_lookup.mpr ⟨v, h⟩

theorem lookup_retain (p : K → V → Bool) (m : HashMap K V) (k : K) :
    (m.retain p).lookup k = (m.lookup k).filter (p k) := by
  ext v
  simp only [Option.filter_eq_some_iff]
  have h := @mem_lookup_iff K (fun _ => V) _ k v
  simp only [Option.mem_def] at h
  rw [h, h, retain, List.mem_filter]

theorem forall_lookup_iff {B : K → Type} {m : AList B} {P : (k : K) → B k → Prop} :
    (∀ k b, m.lookup k = some b → P k b) ↔ ∀ e ∈ m.entries, P e.1 e.2 := by
  constructor
  · intro h e he
    exact h e.1 e.2 (mem_lookup_iff.mpr he)
  · intro h k b hk
    exact h ⟨k, b⟩ (mem_lookup_iff.mp hk)

theorem lookup_mapWithKey {B : K → Type} (f : (k : K) → V → B k) (m : HashMap K V) (k : K) :
    (m.mapWithKey f).lookup k = (m.lookup k).map (f k) := by
  obtain ⟨l, nd⟩ := m
  simp only [mapWithKey, lookup]
  clear nd
  induction l with
  | nil => rfl
  | cons e l ih =>
    obtain ⟨k', v⟩ := e
    by_cases h : k = k'
    · subst h
      simp
    · rw [List.map_cons, List.dlookup_cons_ne _ _ h, List.dlookup_cons_ne _ _ h]
      exact ih

theorem lookup_mapValues (f : V → W) (m : HashMap K V) (k : K) :
    (m.mapValues f).lookup k = (m.lookup k).map f := lookup_mapWithKey _ m k

@[simp] theorem mem_mapValues (f : V → W) (m : HashMap K V) (k : K) :
    k ∈ m.mapValues f ↔ k ∈ m := by
  rw [← lookup_isSome, ← lookup_isSome, lookup_mapValues, Option.isSome_map]

/-! ## Updates without effect -/

theorem erase_eq_self {m : HashMap K V} {k : K} (h : k ∉ m) : m.erase k = m := by
  apply AList.ext
  exact List.kerase_of_notMem_keys h

theorem mapValues_eq_self {f : V → V} {m : HashMap K V} (h : ∀ k v, m.lookup k = some v → f v = v) :
    m.mapValues f = m := by
  apply AList.ext
  show m.entries.map (fun e => (⟨e.1, f e.2⟩ : Sigma fun _ : K => V)) = m.entries
  have hid : ∀ e ∈ m.entries, (⟨e.1, f e.2⟩ : Sigma fun _ : K => V) = e := fun e he => by
    rw [h e.1 e.2 (mem_lookup_iff.mpr he)]
  exact (List.map_congr_left hid).trans (List.map_id' _)

theorem retain_eq_self {p : K → V → Bool} {m : HashMap K V}
    (h : ∀ k v, m.lookup k = some v → p k v = true) : m.retain p = m := by
  apply AList.ext
  exact List.filter_eq_self.mpr fun e he => h e.1 e.2 (mem_lookup_iff.mpr he)

omit [DecidableEq K] in
theorem eq_empty_of_forall_notMem {m : HashMap K V} (h : ∀ k, k ∉ m) : m = ∅ := by
  apply AList.ext
  refine List.eq_nil_iff_forall_not_mem.mpr fun e he => h e.1 ?_
  exact mem_keys.mpr (List.mem_map_of_mem he)

/-! ## Sums -/

section sums

variable {B : K → Type} (f g : (k : K) → B k → Nat) {m : AList B}

/-- The sum of a measure of the entries. -/
def sumBy (m : AList B) : Nat := (m.entries.map fun e => f e.1 e.2).sum

theorem sumBy_insert {k : K} {b : B k} (h : m.lookup k = some b) (b' : B k) :
    (m.insert k b').sumBy f + f k b = m.sumBy f + f k b' := by
  have hmem : (⟨k, b⟩ : Sigma B) ∈ m.entries := mem_lookup_iff.mp h
  obtain ⟨c, l₁, l₂, -, hentries, hkerase⟩ := List.exists_of_kerase (List.mem_keys_of_mem hmem)
  have hc : c = b := by
    have hc : (⟨k, c⟩ : Sigma B) ∈ m.entries := by
      rw [hentries]
      exact List.mem_append_right _ List.mem_cons_self
    have hlookup := mem_lookup_iff.mpr hc
    rw [Option.mem_def, h] at hlookup
    exact (Option.some.inj hlookup).symm
  unfold sumBy
  rw [entries_insert, hkerase, hentries, hc]
  simp only [List.map_cons, List.map_append, List.sum_cons, List.sum_append]
  omega

theorem sumBy_insert_new {k : K} (h : k ∉ m) (b : B k) :
    (m.insert k b).sumBy f = m.sumBy f + f k b := by
  unfold sumBy
  rw [entries_insert, List.kerase_of_notMem_keys h, List.map_cons, List.sum_cons, Nat.add_comm]

variable {f g}

theorem sumBy_le (h : ∀ k b, m.lookup k = some b → f k b ≤ g k b) : m.sumBy f ≤ m.sumBy g :=
  List.sum_le_sum fun e he => h e.1 e.2 (mem_lookup_iff.mpr he)

theorem sumBy_lt (h : ∀ k b, m.lookup k = some b → f k b ≤ g k b) {k : K} {b : B k}
    (hk : m.lookup k = some b) (hlt : f k b < g k b) : m.sumBy f < m.sumBy g :=
  List.sum_lt_sum _ _ (fun e he => h e.1 e.2 (mem_lookup_iff.mpr he))
    ⟨⟨k, b⟩, mem_lookup_iff.mp hk, hlt⟩

end sums

/-! ## Loops -/

/-- A loop over `m` that folds values into a maximum per key: the projection `proj` reads key `n`,
and one pass of the loop body raises it exactly when it handles that key. -/
theorem foldl_max {σ : Type} (m : HashMap K ℕ) (step : σ → K → ℕ → σ) (proj : σ → ℕ) (n : K)
    (hstep : ∀ s k v, proj (step s k v) = if k = n then max (proj s) v else proj s) (s : σ) :
    proj (m.foldl step s) = max (proj s) ((m.lookup n).getD 0) := by
  obtain ⟨l, nd⟩ := m
  simp only [foldl, lookup]
  induction l generalizing s with
  | nil => simp
  | cons e l ih =>
    obtain ⟨k, v⟩ := e
    obtain ⟨hk, nd'⟩ := List.nodupKeys_cons.mp nd
    rw [List.foldl_cons, ih _ nd', hstep]
    by_cases h : k = n
    · subst h
      rw [List.dlookup_cons_eq, List.dlookup_eq_none.mpr hk]
      simp
    · rw [if_neg h, List.dlookup_cons_ne _ _ (Ne.symm h)]

theorem lookup_foldl_upsert (m : HashMap K W) (f : W → Option V → V) (acc : HashMap K V) (k : K) :
    (m.foldl (fun out a w => out.upsert a (f w)) acc).lookup k =
      (m.lookup k).elim (acc.lookup k) fun w => some (f w (acc.lookup k)) := by
  obtain ⟨l, nd⟩ := m
  simp only [foldl, lookup]
  induction l generalizing acc with
  | nil => simp
  | cons e l ih =>
    obtain ⟨a, w⟩ := e
    obtain ⟨ha, nd'⟩ := List.nodupKeys_cons.mp nd
    have hins := lookup_upsert acc a k (f w)
    simp only [lookup] at hins
    rw [List.foldl_cons, ih _ nd', hins]
    by_cases h : k = a
    · subst h
      rw [List.dlookup_cons_eq, List.dlookup_eq_none.mpr ha]
      simp
    · rw [if_neg h, List.dlookup_cons_ne _ _ h]

theorem lookup_foldl_insert_filter (m : HashMap K V) (p : K → V → Prop) [∀ k v, Decidable (p k v)]
    (acc : HashMap K V) (k : K) :
    (m.foldl (fun out a v => if p a v then out.insert a v else out) acc).lookup k =
      ((m.lookup k).filter fun v => decide (p k v)).or (acc.lookup k) := by
  obtain ⟨l, nd⟩ := m
  simp only [foldl, lookup]
  induction l generalizing acc with
  | nil => simp
  | cons e l ih =>
    obtain ⟨a, v⟩ := e
    obtain ⟨ha, nd'⟩ := List.nodupKeys_cons.mp nd
    have hstep : (if p a v then acc.insert a v else acc).lookup k =
        if k = a ∧ p a v then some v else acc.lookup k := by
      split
      · next hp => simp [lookup_insert_eq, hp]
      · next hp => simp [hp]
    simp only [lookup] at hstep
    rw [List.foldl_cons, ih _ nd', hstep]
    by_cases h : k = a
    · subst h
      rw [List.dlookup_cons_eq, List.dlookup_eq_none.mpr ha]
      by_cases hp : p k v
      · simp [hp, Option.filter]
      · simp [hp, Option.filter]
    · rw [List.dlookup_cons_ne _ _ h]
      simp [h]

theorem lookup_foldl_insert_some {l : List (K × V)} {m : HashMap K V} {k : K} {v : V}
    (h : (l.foldl (fun out e => out.insert e.1 e.2) m).lookup k = some v) :
    (k, v) ∈ l ∨ m.lookup k = some v := by
  induction l generalizing m with
  | nil => exact Or.inr h
  | cons e l ih =>
    rcases ih h with hl | hm
    · exact Or.inl (List.mem_cons_of_mem _ hl)
    · rw [lookup_insert_eq] at hm
      split at hm
      · next hk =>
        obtain rfl := Option.some.inj hm
        subst hk
        exact Or.inl (by simp)
      · exact Or.inr hm

theorem lookup_foldl_insert_of_notMem {l : List (K × V)} {m : HashMap K V} {k : K}
    (h : ∀ v, (k, v) ∉ l) :
    (l.foldl (fun out e => out.insert e.1 e.2) m).lookup k = m.lookup k := by
  induction l using List.reverseRecOn with
  | nil => rfl
  | append_singleton l e ih =>
    have hne : k ≠ e.1 := fun hk => h e.2 (by simp [hk])
    rw [List.foldl_append, List.foldl_cons, List.foldl_nil, lookup_insert_ne hne]
    exact ih fun v hv => h v (List.mem_append_left _ hv)

theorem mem_foldl_insert {l : List (K × V)} {m : HashMap K V} {k : K} :
    k ∈ l.foldl (fun out e => out.insert e.1 e.2) m ↔ (∃ v, (k, v) ∈ l) ∨ k ∈ m := by
  induction l generalizing m with
  | nil => simp
  | cons e l ih =>
    rw [List.foldl_cons, ih, mem_insert]
    constructor
    · rintro (⟨v, hv⟩ | rfl | hm)
      · exact Or.inl ⟨v, List.mem_cons_of_mem _ hv⟩
      · exact Or.inl ⟨e.2, by simp⟩
      · exact Or.inr hm
    · rintro (⟨v, hv⟩ | hm)
      · rcases List.mem_cons.mp hv with rfl | hv
        · exact Or.inr (Or.inl rfl)
        · exact Or.inl ⟨v, hv⟩
      · exact Or.inr (Or.inr hm)

/-- A map collected from a sorted list: for every key the greatest item that names it counts. Items
that are not told apart by the order must agree. -/
theorem lookup_ofPairs_sorted {A κ : Type} [LinearOrder κ] {f : A → κ} {parse : A → Option (K × V)}
    {k : K} :
    ∀ {l : List A}, l.Pairwise (fun x y => f x ≤ f y) →
      (∀ x ∈ l, ∀ y ∈ l, ∀ v w, parse x = some (k, v) → parse y = some (k, w) → f x = f y → v = w) →
      ∀ v : V,
      ((ofPairs (l.filterMap parse)).lookup k = some v ↔
        ∃ x ∈ l, parse x = some (k, v) ∧ ∀ y ∈ l, ∀ w, parse y = some (k, w) → f y ≤ f x) := by
  intro l
  induction l using List.reverseRecOn with
  | nil => intro _ _ v; simp [ofPairs]
  | append_singleton l a ih =>
    intro hsorted hagree v
    obtain ⟨hl, -, hle⟩ := List.pairwise_append.mp hsorted
    have hlast : ∀ x ∈ l ++ [a], f x ≤ f a := by
      intro x hx
      rcases List.mem_append.mp hx with hx | hx
      · exact hle x hx a List.mem_cons_self
      · rw [List.mem_singleton.mp hx]
    have hmem : ∀ x, x ∈ l ++ [a] ↔ x ∈ l ∨ x = a := fun x => by simp
    have ih := ih hl
      (fun x hx y hy => hagree x ((hmem x).mpr (Or.inl hx)) y ((hmem y).mpr (Or.inl hy))) v
    rw [List.filterMap_append]
    -- an item that does not name `k` changes nothing
    have hskip : (∀ w, parse a ≠ some (k, w)) →
        ((∃ x ∈ l, parse x = some (k, v) ∧ ∀ y ∈ l, ∀ w, parse y = some (k, w) → f y ≤ f x) ↔
          ∃ x ∈ l ++ [a], parse x = some (k, v) ∧ ∀ y ∈ l ++ [a], ∀ w, parse y = some (k, w) →
              f y ≤ f x) := by
      intro hne
      constructor
      · rintro ⟨x, hx, hparse, hmax⟩
        refine ⟨x, (hmem x).mpr (Or.inl hx), hparse, fun y hy w hw => ?_⟩
        rcases (hmem y).mp hy with hy | rfl
        · exact hmax y hy w hw
        · exact absurd hw (hne w)
      · rintro ⟨x, hx, hparse, hmax⟩
        rcases (hmem x).mp hx with hx | rfl
        · exact ⟨x, hx, hparse, fun y hy => hmax y ((hmem y).mpr (Or.inl hy))⟩
        · exact absurd hparse (hne v)
    cases ha : parse a with
    | none =>
      rw [List.filterMap_cons_none ha, List.filterMap_nil, List.append_nil, ih]
      exact hskip fun w hw => by rw [ha] at hw; cases hw
    | some e =>
      obtain ⟨k', u⟩ := e
      have hins : ofPairs (l.filterMap parse ++ [(k', u)]) =
          (ofPairs (l.filterMap parse)).insert k' u := by
        unfold ofPairs
        rw [List.foldl_append]
        rfl
      rw [List.filterMap_cons_some ha, List.filterMap_nil, hins, lookup_insert_eq]
      by_cases hk : k = k'
      · subst hk
        rw [if_pos rfl]
        constructor
        · intro h
          obtain rfl := Option.some.inj h
          exact ⟨a, (hmem a).mpr (Or.inr rfl), ha, fun y hy _ _ => hlast y hy⟩
        · rintro ⟨x, hx, hparse, hmax⟩
          have hle := hmax a ((hmem a).mpr (Or.inr rfl)) u ha
          have heq := le_antisymm (hlast x hx) hle
          rw [hagree x hx a ((hmem a).mpr (Or.inr rfl)) v u hparse ha heq]
      · rw [if_neg hk, ih]
        refine hskip fun w hw => hk ?_
        rw [ha] at hw
        exact (Prod.mk.inj (Option.some.inj hw)).1.symm

theorem lookup_ofPairs_iff {l : List (K × V)} (h : ∀ k v w, (k, v) ∈ l → (k, w) ∈ l → v = w) {k : K}
    {v : V} :
    (ofPairs l).lookup k = some v ↔ (k, v) ∈ l := by
  have hsome : ∀ w, (ofPairs l).lookup k = some w → (k, w) ∈ l := by
    intro w hw
    rcases lookup_foldl_insert_some hw with hmem | hempty
    · exact hmem
    · cases hempty
  refine ⟨hsome v, fun hmem => ?_⟩
  have hk : k ∈ ofPairs l := mem_foldl_insert.mpr (Or.inl ⟨v, hmem⟩)
  obtain ⟨w, hw⟩ := mem_iff_lookup.mp hk
  rw [hw, h k v w hmem (hsome w hw)]

theorem lookup_ofPairs_toPairs (m : HashMap K V) (k : K) :
    (ofPairs m.toPairs).lookup k = m.lookup k := by
  have hfun : ∀ k v w, (k, v) ∈ m.toPairs → (k, w) ∈ m.toPairs → v = w := by
    intro k v w hv hw
    rw [mem_toPairs] at hv hw
    exact Option.some.inj (hv.symm.trans hw)
  apply Option.ext
  intro v
  rw [lookup_ofPairs_iff hfun, mem_toPairs]

theorem ofPairs_reverse_toPairs (m : HashMap K V) : ofPairs m.toPairs.reverse = m := by
  obtain ⟨l, nd⟩ := m
  induction l with
  | nil => rfl
  | cons e l ih =>
    obtain ⟨hk, nd'⟩ := List.nodupKeys_cons.mp nd
    have hsplit : (toPairs ⟨e :: l, nd⟩ : List (K × V)).reverse =
        (toPairs ⟨l, nd'⟩).reverse ++ [(e.1, e.2)] := by
      unfold toPairs
      rw [List.map_cons, List.reverse_cons]
    have hrest := ih nd'
    unfold ofPairs at hrest ⊢
    rw [hsplit, List.foldl_append, hrest]
    apply AList.ext
    rw [List.foldl_cons, List.foldl_nil, entries_insert, List.kerase_of_notMem_keys hk]

omit [DecidableEq K] in
theorem toPairs_reversed (m : HashMap K V) : m.reversed.toPairs = m.toPairs.reverse :=
  List.map_reverse

theorem lookup_reversed (m : HashMap K V) (k : K) : m.reversed.lookup k = m.lookup k := by
  apply Option.ext
  intro v
  rw [← mem_toPairs, ← mem_toPairs, toPairs_reversed, List.mem_reverse]

theorem mem_ofKeys {l : List K} {k : K} : k ∈ ofKeys l ↔ k ∈ l := by
  suffices h : ∀ s : HashSet K, k ∈ l.foldl (fun s a => s.insert a ()) s ↔ k ∈ l ∨ k ∈ s by
    simpa [ofKeys] using h ∅
  induction l with
  | nil => simp
  | cons a l ih =>
    intro s
    rw [List.foldl_cons, ih, mem_insert, List.mem_cons]
    tauto

end AList
