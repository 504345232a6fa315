import Mathlib.Order.Filter.AtTopBot.Basic
import Mathlib.Order.Filter.Finite
import Mathlib.Logic.Relation

/-!
# Spreading by word of mouth

Nodes whose knowledge only grows, in the order of time. `Hears know i j` says that `i` learns again
and again what `j` knows. Hearsay composes, so along every path of listeners what is known at one
end gets to the other (`hears_of_path`); and finitely many nodes know at some time, and from then
on, all that any of them knew (`eventually_all`).
-/

namespace Gossip

open Filter

variable {N K : Type} [Preorder K] {know : Nat → N → K}

/-- Whatever `j` knows at some time, `i` knows later. -/
def Hears (know : Nat → N → K) (i j : N) : Prop := ∀ t, ∃ t', t ≤ t' ∧ know t j ≤ know t' i

theorem Hears.refl (i : N) : Hears know i i := fun t => ⟨t, Nat.le_refl t, le_refl _⟩

theorem Hears.trans {i j k : N} (hij : Hears know i j) (hjk : Hears know j k) : Hears know i k := by
  intro t
  obtain ⟨t', ht', hj⟩ := hjk t
  obtain ⟨t'', ht'', hi⟩ := hij t'
  exact ⟨t'', Nat.le_trans ht' ht'', le_trans hj hi⟩

theorem hears_of_path {r : N → N → Prop} (hr : ∀ i j, r i j → Hears know i j) {i j : N}
    (h : Relation.ReflTransGen r i j) : Hears know i j := by
  induction h with
  | refl => exact Hears.refl i
  | tail _ hlast ih => exact ih.trans (hr _ _ hlast)

theorem Hears.eventually (hmono : ∀ i, Monotone fun t => know t i) {i j : N} (h : Hears know i j)
    (T : Nat) :
    ∀ᶠ t in atTop, know T j ≤ know t i := by
  obtain ⟨t', -, hle⟩ := h T
  exact eventually_atTop.mpr ⟨t', fun t ht => le_trans hle (hmono i ht)⟩

/-- Finitely many nodes that all hear of each other. -/
theorem eventually_all (hmono : ∀ i, Monotone fun t => know t i) {nodes : Set N}
    (hfin : nodes.Finite) (h : ∀ i ∈ nodes, ∀ j ∈ nodes, Hears know i j) (T : Nat) :
    ∃ t₀, ∀ t, t₀ ≤ t → ∀ i ∈ nodes, ∀ j ∈ nodes, know T j ≤ know t i := by
  refine eventually_atTop.mp ?_
  refine (eventually_all_finite hfin).mpr fun i hi =>
    (eventually_all_finite hfin).mpr fun j hj => ?_
  exact (h i hi j hj).eventually hmono T

end Gossip
