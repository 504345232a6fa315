import Mathlib.Data.Set.Insert
import Mathlib.Tactic.Common

/-!
# Observed-remove semantics over event histories

A run of an observed-remove set is a set of events. Every event has a unique dot, adds or removes
one element, and carries the set of dots its performer knew (`past`). What a replica that knows
the dots `K` should contain is then a function of the history alone (`Live`): the adds in `K` that
no remove in `K` had observed.

`Faithful h G v` says that a replica's view `v` computes exactly this, where `G` is a set of adds
whose tombstones may have been forgotten. Views change by local adds and removes, by merging a
delta, and by forgetting tombstones; `Carries h R δ` is what a delta in flight has to promise to a
receiver that knows at least `R`. The rules below say that each operation keeps `Faithful`, and
that the delta cut from a faithful view keeps its promise however late it arrives.
-/

namespace ObservedRemove

variable {D E : Type}

inductive Op (E : Type) where
  | add (elem : E)
  | remove (elem : E)

structure Event (D E : Type) where
  dot : D
  op : Op E
  past : Set D

/-- `a` is the dot of an add of `e`. -/
def Added (h : Set (Event D E)) (e : E) (a : D) : Prop := ∃ ev ∈ h, ev.dot = a ∧ ev.op = .add e

/-- `r` is the dot of a remove of `e` whose performer already knew `a`. -/
def Removes (h : Set (Event D E)) (e : E) (r a : D) : Prop :=
  ∃ ev ∈ h, ev.dot = r ∧ ev.op = .remove e ∧ a ∈ ev.past

/-- The adds that knowledge `K` entitles to be visible. -/
def Live (h : Set (Event D E)) (K : Set D) (e : E) (a : D) : Prop :=
  Added h e a ∧ a ∈ K ∧ ∀ r ∈ K, ¬ Removes h e r a

/-- The adds that some remove in `K` had observed. -/
def Gone (h : Set (Event D E)) (K : Set D) (a : D) : Prop :=
  ∃ e, Added h e a ∧ ∃ r ∈ K, Removes h e r a

/-- Knowledge that contains the past of each of its events. -/
def Closed (h : Set (Event D E)) (K : Set D) : Prop := ∀ ev ∈ h, ev.dot ∈ K → ev.past ⊆ K

/-- What a replica stores, or what a delta carries. -/
structure View (D E : Type) where
  adds : E → D → Prop
  tombs : D → D → Prop
  known : Set D

/-- `a` has a tombstone. -/
def View.Tombstoned (v : View D E) (a : D) : Prop := ∃ r, v.tombs a r

/-- The remove recorded for `a` is a known remove that had observed `a`. -/
def TombSound (h : Set (Event D E)) (v : View D E) : Prop :=
  ∀ a r, v.tombs a r → r ∈ v.known ∧ ∃ e, Added h e a ∧ Removes h e r a

/-- The view shows exactly the live adds, up to forgotten tombstones of adds in `G`. -/
structure Faithful (h : Set (Event D E)) (G : Set D) (v : View D E) : Prop where
  adds_iff : ∀ e a, v.adds e a ↔ Live h v.known e a
  tomb_sound : TombSound h v
  tomb_complete : ∀ a, Gone h v.known a → v.Tombstoned a ∨ a ∈ G
  closed : Closed h v.known

/-- What a delta promises to a receiver that knows `R`. -/
structure Carries (h : Set (Event D E)) (R : Set D) (δ : View D E) : Prop where
  adds_sound : ∀ e a, δ.adds e a → Live h δ.known e a
  adds_complete : ∀ e a, Live h δ.known e a → a ∈ R ∨ δ.adds e a
  tomb_sound : TombSound h δ
  tomb_complete : ∀ a, Gone h δ.known a → δ.Tombstoned a ∨ Gone h R a
  closed : Closed h δ.known

/-! ## Growing histories and knowledge -/

variable {h : Set (Event D E)} {G K R : Set D} {v v' δ : View D E} {ev : Event D E} {e : E}
  {a r : D}

theorem Added.grow {h' : Set (Event D E)} (ha : Added h e a) (hh : h ⊆ h') : Added h' e a := by
  obtain ⟨ev, hmem, hrest⟩ := ha
  exact ⟨ev, hh hmem, hrest⟩

theorem Removes.grow {h' : Set (Event D E)} (hr : Removes h e r a) (hh : h ⊆ h') :
    Removes h' e r a := by
  obtain ⟨ev, hmem, hrest⟩ := hr
  exact ⟨ev, hh hmem, hrest⟩

theorem Added.extend (ha : Added h e a) (ev : Event D E) : Added (insert ev h) e a :=
  ha.grow (Set.subset_insert ev h)

theorem Removes.extend (hr : Removes h e r a) (ev : Event D E) : Removes (insert ev h) e r a :=
  hr.grow (Set.subset_insert ev h)

theorem added_insert_iff (hne : a ≠ ev.dot) : Added (insert ev h) e a ↔ Added h e a := by
  refine ⟨fun ⟨ev', hmem, hdot, hop⟩ => ?_, fun ha => ha.extend ev⟩
  rcases hmem with rfl | hmem
  · exact absurd hdot.symm hne
  · exact ⟨ev', hmem, hdot, hop⟩

theorem removes_insert_iff (hne : r ≠ ev.dot) : Removes (insert ev h) e r a ↔ Removes h e r a := by
  refine ⟨fun ⟨ev', hmem, hdot, hop⟩ => ?_, fun hr => hr.extend ev⟩
  rcases hmem with rfl | hmem
  · exact absurd hdot.symm hne
  · exact ⟨ev', hmem, hdot, hop⟩

theorem Gone.mono (hg : Gone h K a) (hK : K ⊆ R) : Gone h R a := by
  obtain ⟨e, hadd, r, hr, hrem⟩ := hg
  exact ⟨e, hadd, r, hK hr, hrem⟩

theorem Gone.grow {h' : Set (Event D E)} (hg : Gone h K a) (hh : h ⊆ h') : Gone h' K a := by
  obtain ⟨e, hadd, r, hr, hrem⟩ := hg
  exact ⟨e, hadd.grow hh, r, hr, hrem.grow hh⟩

theorem Gone.extend (hg : Gone h K a) (ev : Event D E) : Gone (insert ev h) K a :=
  hg.grow (Set.subset_insert ev h)

theorem Closed.mem_of_removes (hc : Closed h K) (hr : r ∈ K) (hrem : Removes h e r a) : a ∈ K := by
  obtain ⟨ev, hmem, rfl, -, hpast⟩ := hrem
  exact hc ev hmem hr hpast

theorem Closed.union (hK : Closed h K) (hR : Closed h R) : Closed h (K ∪ R) := by
  rintro ev hmem (hk | hr)
  · exact (hK ev hmem hk).trans Set.subset_union_left
  · exact (hR ev hmem hr).trans Set.subset_union_right

section fresh
/-! Knowledge that does not contain the dot of a new event is not affected by the event. -/

variable (hfresh : ev.dot ∉ K)
include hfresh

theorem live_insert_iff : Live (insert ev h) K e a ↔ Live h K e a := by
  have hne : ∀ x ∈ K, x ≠ ev.dot := fun x hx heq => hfresh (heq ▸ hx)
  constructor
  · rintro ⟨hadd, hmem, hnot⟩
    exact ⟨(added_insert_iff (hne a hmem)).mp hadd, hmem,
      fun r hr hrem => hnot r hr (hrem.extend ev)⟩
  · rintro ⟨hadd, hmem, hnot⟩
    exact ⟨hadd.extend ev, hmem, fun r hr hrem => hnot r hr
      ((removes_insert_iff (hne r hr)).mp hrem)⟩

theorem gone_of_insert (hc : Closed h K) (hg : Gone (insert ev h) K a) : Gone h K a := by
  have hne : ∀ x ∈ K, x ≠ ev.dot := fun x hx heq => hfresh (heq ▸ hx)
  obtain ⟨e, hadd, r, hr, hrem⟩ := hg
  have hrem' := (removes_insert_iff (hne r hr)).mp hrem
  exact ⟨e, (added_insert_iff (hne a (hc.mem_of_removes hr hrem'))).mp hadd, r, hr, hrem'⟩

theorem Closed.extend (hc : Closed h K) : Closed (insert ev h) K := by
  rintro ev' (rfl | hmem) hdot
  · exact absurd hdot hfresh
  · exact hc ev' hmem hdot

end fresh

theorem TombSound.extend (hs : TombSound h v) (ev : Event D E) : TombSound (insert ev h) v := by
  intro a r ht
  obtain ⟨hr, e, hadd, hrem⟩ := hs a r ht
  exact ⟨hr, e, hadd.extend ev, hrem.extend ev⟩

theorem Faithful.extend (hf : Faithful h G v) (hfresh : ev.dot ∉ v.known) :
    Faithful (insert ev h) G v where
  adds_iff e a := (hf.adds_iff e a).trans (live_insert_iff hfresh).symm
  tomb_sound := hf.tomb_sound.extend ev
  tomb_complete a hg := hf.tomb_complete a (gone_of_insert hfresh hf.closed hg)
  closed := hf.closed.extend hfresh

theorem Faithful.mono (hf : Faithful h G v) {G' : Set D} (hG : G ⊆ G') : Faithful h G' v :=
  { hf with tomb_complete := fun a hg => (hf.tomb_complete a hg).imp_right fun ha => hG ha }

theorem Carries.extend (hc : Carries h R δ) (hfresh : ev.dot ∉ δ.known) :
    Carries (insert ev h) R δ where
  adds_sound e a had := (live_insert_iff hfresh).mpr (hc.adds_sound e a had)
  adds_complete e a hl := hc.adds_complete e a ((live_insert_iff hfresh).mp hl)
  tomb_sound := hc.tomb_sound.extend ev
  tomb_complete a hg :=
    (hc.tomb_complete a (gone_of_insert hfresh hc.closed hg)).imp_right fun hR => hR.extend ev
  closed := hc.closed.extend hfresh

theorem Carries.mono (hc : Carries h K δ) (hK : K ⊆ R) : Carries h R δ :=
  { hc with
    adds_complete := fun e a hl => (hc.adds_complete e a hl).imp_left fun ha => hK ha
    tomb_complete := fun a hg => (hc.tomb_complete a hg).imp_right fun hg' => hg'.mono hK }

/-! ## Local operations

The performer's new event has a dot that is in nobody's knowledge and in no event of the history,
and its past is what the performer knew. -/

section local_operations

variable (hf : Faithful h G v) (hfresh : ev.dot ∉ v.known) (hnew : ∀ ev' ∈ h, ev'.dot ≠ ev.dot)
  (hpast : ev.past = v.known) (hknown : v'.known = insert ev.dot v.known)
include hf hfresh hnew hpast hknown

theorem closed_local : Closed (insert ev h) v'.known := by
  rw [hknown]
  rintro ev' (rfl | hmem) hdot
  · rw [hpast]
    exact Set.subset_insert _ _
  · rcases hdot with hdot | hdot
    · exact absurd hdot (hnew ev' hmem)
    · exact (hf.closed ev' hmem hdot).trans (Set.subset_insert _ _)

omit hf in
theorem removes_local (hr : r ∈ v'.known) (hrem : Removes (insert ev h) e r a) :
    (r = ev.dot ∧ ev.op = .remove e ∧ a ∈ v.known) ∨ (r ∈ v.known ∧ Removes h e r a) := by
  obtain ⟨ev', hmem, hdot, hop, ha⟩ := hrem
  rcases hmem with rfl | hmem
  · exact Or.inl ⟨hdot.symm, hop, hpast ▸ ha⟩
  · rw [hknown] at hr
    rcases hr with rfl | hr
    · exact absurd hdot (hnew ev' hmem)
    · exact Or.inr ⟨hr, ev', hmem, hdot, hop, ha⟩

theorem Faithful.local_add {x : E} (hop : ev.op = .add x)
    (hadds : ∀ e a, v'.adds e a ↔ v.adds e a ∨ (e = x ∧ a = ev.dot))
    (htombs : ∀ a r, v'.tombs a r ↔ v.tombs a r) : Faithful (insert ev h) G v' := by
  have hold : ∀ e r a, r ∈ v'.known → Removes (insert ev h) e r a →
      r ∈ v.known ∧ Removes h e r a := by
    intro e r a hr hrem
    rcases removes_local hfresh hnew hpast hknown hr hrem with ⟨-, hop', -⟩ | hold
    · rw [hop] at hop'
      cases hop'
    · exact hold
  refine ⟨fun e a => ?_, fun a r ht => ?_, fun a hg => ?_,
    closed_local hf hfresh hnew hpast hknown⟩
  · rw [hadds, hf.adds_iff]
    constructor
    · rintro (⟨hadd, hmem, hnot⟩ | ⟨rfl, rfl⟩)
      · refine ⟨hadd.extend ev, hknown ▸ Set.mem_insert_of_mem _ hmem, fun r hr hrem => ?_⟩
        obtain ⟨hr', hrem'⟩ := hold e r a hr hrem
        exact hnot r hr' hrem'
      · refine ⟨⟨ev, Or.inl rfl, rfl, hop⟩, hknown ▸ Set.mem_insert _ _, fun r hr hrem => ?_⟩
        obtain ⟨hr', hrem'⟩ := hold e r _ hr hrem
        exact hfresh (hf.closed.mem_of_removes hr' hrem')
    · rintro ⟨⟨ev', hmem, rfl, hop'⟩, ha, hnot⟩
      rcases hmem with rfl | hmem
      · rw [hop] at hop'
        cases hop'
        exact Or.inr ⟨rfl, rfl⟩
      · left
        rw [hknown] at ha hnot
        refine ⟨⟨ev', hmem, rfl, hop'⟩, ha.resolve_left (hnew ev' hmem), fun r hr hrem => ?_⟩
        exact hnot r (Set.mem_insert_of_mem _ hr) (hrem.extend ev)
  · obtain ⟨hr, hrest⟩ := hf.tomb_sound.extend ev a r ((htombs a r).mp ht)
    exact ⟨hknown ▸ Set.mem_insert_of_mem _ hr, hrest⟩
  · obtain ⟨e, hadd, r, hr, hrem⟩ := hg
    obtain ⟨hr', hrem'⟩ := hold e r a hr hrem
    have ha : a ≠ ev.dot := fun heq => hfresh (heq ▸ hf.closed.mem_of_removes hr' hrem')
    rcases hf.tomb_complete a ⟨e, (added_insert_iff ha).mp hadd, r, hr', hrem'⟩ with ⟨s, hs⟩ | hG
    · exact Or.inl ⟨s, (htombs a s).mpr hs⟩
    · exact Or.inr hG

theorem Faithful.local_remove {x : E} (hop : ev.op = .remove x)
    (hadds : ∀ e a, v'.adds e a ↔ v.adds e a ∧ e ≠ x)
    (htombs : ∀ a r, v'.tombs a r ↔ (v.adds x a ∧ r = ev.dot) ∨ (¬ v.adds x a ∧ v.tombs a r)) :
    Faithful (insert ev h) G v' := by
  have hadded : ∀ e a, Added (insert ev h) e a → Added h e a := by
    rintro e a ⟨ev', rfl | hmem, hdot, hop'⟩
    · rw [hop] at hop'
      cases hop'
    · exact ⟨ev', hmem, hdot, hop'⟩
  have htombed : ∀ a, v.Tombstoned a → v'.Tombstoned a := by
    rintro a ⟨r, hr⟩
    by_cases ha : v.adds x a
    · exact ⟨ev.dot, (htombs a _).mpr (Or.inl ⟨ha, rfl⟩)⟩
    · exact ⟨r, (htombs a r).mpr (Or.inr ⟨ha, hr⟩)⟩
  have hself : ev.dot ∈ v'.known := hknown ▸ Set.mem_insert _ _
  refine ⟨fun e a => ?_, fun a r ht => ?_, fun a hg => ?_,
    closed_local hf hfresh hnew hpast hknown⟩
  · rw [hadds, hf.adds_iff]
    constructor
    · rintro ⟨⟨hadd, hmem, hnot⟩, hne⟩
      refine ⟨hadd.extend ev, hknown ▸ Set.mem_insert_of_mem _ hmem, fun r hr hrem => ?_⟩
      rcases removes_local hfresh hnew hpast hknown hr hrem with ⟨-, hop', -⟩ | ⟨hr', hrem'⟩
      · rw [hop] at hop'
        cases hop'
        exact hne rfl
      · exact hnot r hr' hrem'
    · rintro ⟨hadd, ha, hnot⟩
      obtain ⟨ev', hmem, rfl, hop'⟩ := hadded e a hadd
      rw [hknown] at ha
      have ha' : ev'.dot ∈ v.known := ha.resolve_left (hnew ev' hmem)
      refine ⟨⟨⟨ev', hmem, rfl, hop'⟩, ha', fun r hr hrem => ?_⟩, ?_⟩
      · exact hnot r (hknown ▸ Set.mem_insert_of_mem _ hr) (hrem.extend ev)
      · rintro rfl
        exact hnot ev.dot hself ⟨ev, Or.inl rfl, rfl, hop, hpast ▸ ha'⟩
  · rcases (htombs a r).mp ht with ⟨ha, rfl⟩ | ⟨-, ht⟩
    · obtain ⟨hadd, hmem, -⟩ := (hf.adds_iff x a).mp ha
      exact ⟨hself, x, hadd.extend ev, ev, Or.inl rfl, rfl, hop, hpast ▸ hmem⟩
    · obtain ⟨hr, hrest⟩ := hf.tomb_sound.extend ev a r ht
      exact ⟨hknown ▸ Set.mem_insert_of_mem _ hr, hrest⟩
  · obtain ⟨e, hadd, r, hr, hrem⟩ := hg
    have hadd' := hadded e a hadd
    rcases removes_local hfresh hnew hpast hknown hr hrem with ⟨-, hop', ha⟩ | ⟨hr', hrem'⟩
    · -- the new remove: either it finds `a` visible, or `a` was gone before
      rw [hop] at hop'
      cases hop'
      by_cases hx : v.adds x a
      · exact Or.inl ⟨ev.dot, (htombs a _).mpr (Or.inl ⟨hx, rfl⟩)⟩
      · have hgone : Gone h v.known a := by
          by_contra hng
          exact hx ((hf.adds_iff x a).mpr ⟨hadd', ha, fun r hr hrem => hng ⟨x, hadd', r, hr, hrem⟩⟩)
        exact (hf.tomb_complete a hgone).imp_left (htombed a)
    · exact (hf.tomb_complete a ⟨e, hadd', r, hr', hrem'⟩).imp_left (htombed a)

end local_operations

/-! ## Deltas -/

/-- `v'` is the view `v` after the delta `δ`: tombstones first, then the adds that have none. -/
structure Merged (v δ v' : View D E) : Prop where
  known : v'.known = v.known ∪ δ.known
  tombs_of : ∀ a r, v'.tombs a r → δ.tombs a r ∨ v.tombs a r
  tombstoned_iff : ∀ a, v'.Tombstoned a ↔ δ.Tombstoned a ∨ v.Tombstoned a
  adds_iff : ∀ e a, v'.adds e a ↔
    (v.adds e a ∧ ¬ δ.Tombstoned a) ∨ (δ.adds e a ∧ ¬ v'.Tombstoned a)

theorem TombSound.gone (hs : TombSound h v) (ht : v.Tombstoned a) : Gone h v.known a := by
  obtain ⟨r, hr⟩ := ht
  obtain ⟨hmem, e, hadd, hrem⟩ := hs a r hr
  exact ⟨e, hadd, r, hmem, hrem⟩

/-- Two adds of one dot add the same element. -/
def UniqueDots (h : Set (Event D E)) : Prop := ∀ ev ∈ h, ∀ ev' ∈ h, ev.dot = ev'.dot → ev = ev'

theorem Live.not_gone (hu : UniqueDots h) (hl : Live h K e a) : ¬ Gone h K a := by
  rintro ⟨e', ⟨ev', hmem', hdot', hop'⟩, r, hr, hrem⟩
  obtain ⟨⟨ev, hmem, hdot, hop⟩, -, hnot⟩ := hl
  obtain rfl := hu ev hmem ev' hmem' (hdot.trans hdot'.symm)
  rw [hop] at hop'
  cases hop'
  exact hnot r hr hrem

/-- **Merging a delta keeps a view faithful**, provided it brings back no add of `G` that the view
already knew, dropped, and has no tombstone for. -/
theorem Faithful.merge (hu : UniqueDots h) (hf : Faithful h G v) (hc : Carries h v.known δ)
    (hm : Merged v δ v')
    (hguard : ∀ e a, δ.adds e a → a ∈ G → a ∈ v.known → v.adds e a ∨ v'.Tombstoned a) :
    Faithful h G v' := by
  have hleft : v.known ⊆ v'.known := hm.known ▸ Set.subset_union_left
  have hright : δ.known ⊆ v'.known := hm.known ▸ Set.subset_union_right
  have hsplit : ∀ r ∈ v'.known, r ∈ v.known ∨ r ∈ δ.known := fun r hr => by
    rw [hm.known] at hr
    exact hr
  have hsound : TombSound h v' := by
    intro a r ht
    rcases hm.tombs_of a r ht with ht | ht
    · obtain ⟨hr, hrest⟩ := hc.tomb_sound a r ht
      exact ⟨hright hr, hrest⟩
    · obtain ⟨hr, hrest⟩ := hf.tomb_sound a r ht
      exact ⟨hleft hr, hrest⟩
  refine ⟨fun e a => ?_, hsound, fun a hg => ?_, hm.known ▸ hf.closed.union hc.closed⟩
  · rw [hm.adds_iff]
    constructor
    · rintro (⟨ha, hnt⟩ | ⟨ha, hnt⟩)
      · have hl := (hf.adds_iff e a).mp ha
        refine ⟨hl.1, hleft hl.2.1, fun r hr hrem => ?_⟩
        rcases hsplit r hr with hr | hr
        · exact hl.2.2 r hr hrem
        · -- removed on the sender's side: the tombstone travelled or was known here
          rcases hc.tomb_complete a ⟨e, hl.1, r, hr, hrem⟩ with ht | hg
          · exact hnt ht
          · exact hl.not_gone hu hg
      · have hl := hc.adds_sound e a ha
        refine ⟨hl.1, hright hl.2.1, fun r hr hrem => ?_⟩
        rcases hsplit r hr with hr | hr
        · -- removed on our side: we still have the tombstone, or the add is in `G`
          have hknow := hf.closed.mem_of_removes hr hrem
          rcases hf.tomb_complete a ⟨e, hl.1, r, hr, hrem⟩ with ht | hG
          · exact hnt ((hm.tombstoned_iff a).mpr (Or.inr ht))
          · rcases hguard e a ha hG hknow with hv | ht
            · exact ((hf.adds_iff e a).mp hv).2.2 r hr hrem
            · exact hnt ht
        · exact hl.2.2 r hr hrem
    · rintro ⟨hadd, ha, hnot⟩
      have hlive : Live h v'.known e a := ⟨hadd, ha, hnot⟩
      have hnt : ¬ v'.Tombstoned a := fun ht => hlive.not_gone hu (hsound.gone ht)
      have hold : a ∈ v.known → v.adds e a := fun hav =>
        (hf.adds_iff e a).mpr ⟨hadd, hav, fun r hr => hnot r (hleft hr)⟩
      have hntδ : ¬ δ.Tombstoned a := fun ht => hnt ((hm.tombstoned_iff a).mpr (Or.inl ht))
      rcases hsplit a ha with hav | haδ
      · exact Or.inl ⟨hold hav, hntδ⟩
      · rcases hc.adds_complete e a ⟨hadd, haδ, fun r hr => hnot r (hright hr)⟩ with hav | had
        · exact Or.inl ⟨hold hav, hntδ⟩
        · exact Or.inr ⟨had, hnt⟩
  · obtain ⟨e, hadd, r, hr, hrem⟩ := hg
    have hown : Gone h v.known a → v'.Tombstoned a ∨ a ∈ G := fun hg =>
      (hf.tomb_complete a hg).imp_left fun ht => (hm.tombstoned_iff a).mpr (Or.inr ht)
    rcases hsplit r hr with hr | hr
    · exact hown ⟨e, hadd, r, hr, hrem⟩
    · rcases hc.tomb_complete a ⟨e, hadd, r, hr, hrem⟩ with ht | hg
      · exact Or.inl ((hm.tombstoned_iff a).mpr (Or.inl ht))
      · exact hown hg

/-- **The delta cut from a faithful view for a receiver that knew `K`** carries what every receiver
with more knowledge needs, as long as the forgotten adds are gone for the receiver too. -/
theorem Faithful.carries (hf : Faithful h G v) (hK : K ⊆ R) (hG : ∀ a ∈ G, Gone h R a)
    (hadds : ∀ e a, δ.adds e a ↔ v.adds e a ∧ a ∉ K)
    (htombs : ∀ a r, δ.tombs a r ↔ v.tombs a r ∧ r ∉ K) (hknown : δ.known = v.known) :
    Carries h R δ := by
  refine ⟨fun e a ha => ?_, fun e a hl => ?_, fun a r ht => ?_, fun a hg => ?_, hknown ▸ hf.closed⟩
  · rw [hknown]
    exact (hf.adds_iff e a).mp ((hadds e a).mp ha).1
  · rw [hknown] at hl
    by_cases ha : a ∈ K
    · exact Or.inl (hK ha)
    · exact Or.inr ((hadds e a).mpr ⟨(hf.adds_iff e a).mpr hl, ha⟩)
  · rw [hknown]
    exact hf.tomb_sound a r ((htombs a r).mp ht).1
  · rw [hknown] at hg
    rcases hf.tomb_complete a hg with ⟨r, ht⟩ | ha
    · by_cases hr : r ∈ K
      · obtain ⟨-, e, hadd, hrem⟩ := hf.tomb_sound a r ht
        exact Or.inr ⟨e, hadd, r, hK hr, hrem⟩
      · exact Or.inl ⟨r, (htombs a r).mpr ⟨ht, hr⟩⟩
    · exact Or.inr (hG a ha)

/-- **Forgetting tombstones** keeps a view faithful when every forgotten add is put into `G`. -/
theorem Faithful.forget (hf : Faithful h G v) (hadds : ∀ e a, v'.adds e a ↔ v.adds e a)
    (hsub : ∀ a r, v'.tombs a r → v.tombs a r)
    (hkept : ∀ a, v.Tombstoned a → v'.Tombstoned a ∨ a ∈ G) (hknown : v'.known = v.known) :
    Faithful h G v' where
  adds_iff e a := by rw [hadds, hknown, hf.adds_iff]
  tomb_sound a r ht := by rw [hknown]; exact hf.tomb_sound a r (hsub a r ht)
  tomb_complete a hg := by
    rw [hknown] at hg
    exact (hf.tomb_complete a hg).elim (hkept a) Or.inr
  closed := hknown ▸ hf.closed

/-! ## Agreement -/

theorem Faithful.adds_eq (hf : Faithful h G v) (hf' : Faithful h G v') (hk : v.known = v'.known) :
    v.adds e a ↔ v'.adds e a := by
  rw [hf.adds_iff, hf'.adds_iff, hk]

theorem Faithful.tombstoned_iff (hf : Faithful h ∅ v) : v.Tombstoned a ↔ Gone h v.known a :=
  ⟨hf.tomb_sound.gone, fun hg => (hf.tomb_complete a hg).resolve_right id⟩

end ObservedRemove
