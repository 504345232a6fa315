import Mathlib.Combinatorics.SimpleGraph.Connectivity.Connected
import Mathlib.Data.Int.CardIntervalMod

/-!
# Hubs and leaves

The graph in which all hubs are adjacent to each other and every leaf to the one hub it is assigned
to. It is a simple graph by construction and connected as soon as there is a hub. Leaves that are
numbered and assigned in turn are spread evenly (`count_mod_le`).
-/

namespace HubGraph

variable {α β : Type} {hub : β → α}

def Adjacent (hub : β → α) : α ⊕ β → α ⊕ β → Prop
  | .inl a, .inl a' => a ≠ a'
  | .inl a, .inr b => hub b = a
  | .inr b, .inl a => hub b = a
  | .inr _, .inr _ => False

def hubGraph (hub : β → α) : SimpleGraph (α ⊕ β) where
  Adj := Adjacent hub
  symm := by
    constructor
    rintro (a | b) (a' | b') h
    · exact Ne.symm h
    · exact h
    · exact h
    · exact h
  loopless := by
    constructor
    rintro (a | b) h
    · exact h rfl
    · exact h

theorem reachable_hub (hub : β → α) (v : α ⊕ β) (a : α) : (hubGraph hub).Reachable v (.inl a) := by
  have hhubs : ∀ a', (hubGraph hub).Reachable (.inl a') (.inl a) := by
    intro a'
    by_cases heq : a' = a
    · rw [heq]
    · exact SimpleGraph.Adj.reachable heq
  cases v with
  | inl a' => exact hhubs a'
  | inr b =>
    have hown : (hubGraph hub).Adj (.inr b) (.inl (hub b)) := rfl
    exact hown.reachable.trans (hhubs (hub b))

theorem connected [h : Nonempty α] (hub : β → α) : (hubGraph hub).Connected := by
  obtain ⟨a⟩ := h
  have : Nonempty (α ⊕ β) := ⟨.inl a⟩
  exact ⟨fun u v => (reachable_hub hub u a).trans (reachable_hub hub v a).symm⟩

theorem count_mod_le {g i j : Nat} (hi : i < g) (hj : j < g) (n : Nat) :
    n.count (fun k => k % g = i) ≤ n.count (fun k => k % g = j) + 1 := by
  have hg : 0 < g := Nat.zero_lt_of_lt hi
  have hcount : ∀ i < g, n.count (fun k => k % g = i) = n / g + if i < n % g then 1 else 0 := by
    intro i hi
    have hclass : ∀ k, k ≡ i [MOD g] ↔ k % g = i := by
      intro k
      unfold Nat.ModEq
      rw [Nat.mod_eq_of_lt hi]
    have hcard := Nat.count_modEq_card n hg i
    simp only [hclass, Nat.mod_eq_of_lt hi] at hcard
    exact hcard
  rw [hcount i hi, hcount j hj]
  split <;> split <;> omega

end HubGraph
