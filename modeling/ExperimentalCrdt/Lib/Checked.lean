import Mathlib.Algebra.Order.Ring.Nat
import Mathlib.Data.List.Basic
import Mathlib.Tactic.Common

/-!
# Arithmetic with overflow checks

Unsigned arithmetic of 64 bits as it runs with overflow checks: a result that does not fit, a
difference below zero and a division by zero have no value. So a program written with these has a
value exactly if none of its operations overflows, and then the value is the one of the natural
numbers.
-/

namespace Checked

def addU64 (a b : Nat) : Option Nat := if a + b < 2 ^ 64 then some (a + b) else none

def sub (a b : Nat) : Option Nat := if b ≤ a then some (a - b) else none

def rem (a b : Nat) : Option Nat := if b = 0 then none else some (a % b)

variable {a b : Nat}

theorem addU64_eq_some (h : a + b < 2 ^ 64) : addU64 a b = some (a + b) := if_pos h

theorem sub_eq_some (h : b ≤ a) : sub a b = some (a - b) := if_pos h

theorem rem_eq_some (h : b ≠ 0) : rem a b = some (a % b) := if_neg h

theorem addU64_eq_none_iff : addU64 a b = none ↔ 2 ^ 64 ≤ a + b := by
  unfold addU64
  split
  · next h => exact iff_of_false (by simp) (Nat.not_le.mpr h)
  · next h => exact iff_of_true rfl (Nat.not_lt.mp h)

variable {α β σ : Type}

theorem mapM_eq_some {f : α → Option β} {g : α → β} {l : List α} (h : ∀ x ∈ l, f x = some (g x)) :
    l.mapM f = some (l.map g) := by
  induction l with
  | nil => rfl
  | cons x l ih =>
    rw [List.mapM_cons, h x List.mem_cons_self, ih fun y hy => h y (List.mem_cons_of_mem _ hy)]
    rfl

theorem filterM_eq_some {f : α → Option Bool} {p : α → Bool} {l : List α}
    (h : ∀ x ∈ l, f x = some (p x)) :
    l.filterM f = some (l.filter p) := by
  have haux : ∀ acc, l.filterAuxM f acc = some ((l.filter p).reverse ++ acc) := by
    induction l with
    | nil => exact fun acc => rfl
    | cons x l ih =>
      intro acc
      unfold List.filterAuxM
      rw [h x List.mem_cons_self, Option.bind_eq_bind, Option.bind_some,
        ih fun y hy => h y (List.mem_cons_of_mem _ hy)]
      cases hx : p x
      · rw [List.filter_cons_of_neg (by simp [hx])]
        rfl
      · rw [List.filter_cons_of_pos hx, List.reverse_cons, List.append_assoc]
        rfl
  unfold List.filterM
  rw [haux []]
  simp

theorem foldlM_eq_some {f : σ → α → Option σ} {g : σ → α → σ} {l : List α}
    (h : ∀ s, ∀ x ∈ l, f s x = some (g s x)) (s : σ) : l.foldlM f s = some (l.foldl g s) := by
  induction l generalizing s with
  | nil => rfl
  | cons x l ih =>
    rw [List.foldlM_cons, h s x List.mem_cons_self, List.foldl_cons]
    exact ih (fun s y hy => h s y (List.mem_cons_of_mem _ hy)) (g s x)

theorem foldlM_append {f : σ → α → Option σ} {l : List α} {s s' : σ} (h : l.foldlM f s = some s')
    (l' : List α) :
    (l ++ l').foldlM f s = l'.foldlM f s' := by
  rw [List.foldlM_append, h]
  rfl

end Checked
