import Mathlib.Data.List.Induction
import Mathlib.Order.Bounds.Basic
import Mathlib.Tactic.Common

/-!
# Folds that compute bounds

An operation on representations need not be commutative or associative, or even determined by what
is represented. If it reads as a join, then a fold over any non-empty list reads as the least upper
bound of what is on the list, so neither the order nor a repetition shows. The same for meets, by
duality.
-/

namespace Semilattice

variable {α β : Type} {read : α → β} {op : α → α → α}

/-- A fold that reads as a join computes the least upper bound of the list. -/
theorem isLUB_foldl [SemilatticeSup β] (hop : ∀ a b, read (op a b) = read a ⊔ read b) (x : α)
    (xs : List α) :
    IsLUB (Set.image read {a | a ∈ x :: xs}) (read (xs.foldl op x)) := by
  induction xs using List.reverseRecOn with
  | nil =>
    have hone : Set.image read {a | a ∈ [x]} = {read x} := by
      ext b
      simp [eq_comm]
    rw [hone]
    exact isLUB_singleton
  | append_singleton xs b ih =>
    have hmore : Set.image read {a | a ∈ x :: (xs ++ [b])} =
        insert (read b) (Set.image read {a | a ∈ x :: xs}) := by
      rw [← Set.image_insert_eq]
      congr 1
      ext a
      simp only [List.mem_cons, List.mem_append, List.not_mem_nil, Set.mem_ofPred_eq,
        Set.mem_insert_iff]
      tauto
    rw [List.foldl_append, List.foldl_cons, List.foldl_nil, hop, hmore, sup_comm]
    exact ih.insert (read b)

variable {x y : α} {xs ys : List α}

theorem foldl_sup_eq [SemilatticeSup β] (hop : ∀ a b, read (op a b) = read a ⊔ read b)
    (hsame : ∀ a, a ∈ x :: xs ↔ a ∈ y :: ys) : read (xs.foldl op x) = read (ys.foldl op y) := by
  have hx := isLUB_foldl hop x xs
  rw [show {a | a ∈ x :: xs} = {a | a ∈ y :: ys} from Set.ext hsame] at hx
  exact hx.unique (isLUB_foldl hop y ys)

theorem foldl_inf_eq [SemilatticeInf β] (hop : ∀ a b, read (op a b) = read a ⊓ read b)
    (hsame : ∀ a, a ∈ x :: xs ↔ a ∈ y :: ys) : read (xs.foldl op x) = read (ys.foldl op y) :=
  foldl_sup_eq (β := βᵒᵈ) hop hsame

end Semilattice
