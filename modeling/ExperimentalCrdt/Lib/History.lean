import Mathlib.Data.List.Induction
import Mathlib.Tactic.Common

/-!
# Histories

A history is the list of what happened, the latest entry last. What a store keeps of it is an entry
and the absence of certain later ones, so everything is said with one notion: `Since q l x`, the
entry `x` and no `q` after it. With `q` the entries about one key it is the last entry about that
key; with `q` the entries that delete, it is an entry that is still there.
-/

namespace History

variable {α : Type} {q : α → Prop} {l : List α} {a x y : α}

/-- `x` is in the history, and nothing after it satisfies `q`. -/
def Since (q : α → Prop) (l : List α) (x : α) : Prop :=
  ∃ before after, l = before ++ x :: after ∧ ∀ y ∈ after, ¬ q y

theorem not_since_nil : ¬ Since q [] x := by
  rintro ⟨before, after, h, -⟩
  exact List.cons_ne_nil _ _ (List.append_eq_nil_iff.mp h.symm).2

theorem since_append_singleton : Since q (l ++ [a]) x ↔ x = a ∨ ¬ q a ∧ Since q l x := by
  constructor
  · rintro ⟨before, after, h, hno⟩
    induction after using List.reverseRecOn with
    | nil =>
      have ha := (List.append_inj' h rfl).2
      exact Or.inl (List.cons.inj ha).1.symm
    | append_singleton after b _ =>
      rw [← List.cons_append, ← List.append_assoc] at h
      obtain ⟨rfl, hb⟩ := List.append_inj' h rfl
      obtain rfl := (List.cons.inj hb).1
      exact Or.inr ⟨hno a (by simp), before, after, rfl,
        fun y hy => hno y (List.mem_append_left _ hy)⟩
  · rintro (rfl | ⟨ha, before, after, rfl, hno⟩)
    · exact ⟨l, [], rfl, fun y hy => absurd hy List.not_mem_nil⟩
    · refine ⟨before, after ++ [a], by simp, fun y hy => ?_⟩
      rcases List.mem_append.mp hy with hy | hy
      · exact hno y hy
      · rw [List.mem_singleton.mp hy]
        exact ha

theorem Since.mem (h : Since q l x) : x ∈ l := by
  obtain ⟨before, after, rfl, -⟩ := h
  exact List.mem_append_right _ List.mem_cons_self

theorem Since.rel_of_pairwise {R : α → α → Prop} (hl : l.Pairwise R) (hx : Since q l x) (hy : y ∈ l)
    (hq : q y) :
    y = x ∨ R y x := by
  obtain ⟨before, after, rfl, hno⟩ := hx
  rcases List.mem_append.mp hy with hy | hy
  · exact Or.inr ((List.pairwise_append.mp hl).2.2 y hy x List.mem_cons_self)
  · rcases List.mem_cons.mp hy with rfl | hy
    · exact Or.inl rfl
    · exact absurd hq (hno y hy)

theorem Since.unique (l : List α) (hx : Since q l x) (hy : Since q l y) (hqx : q x) (hqy : q y) :
    x = y := by
  induction l using List.reverseRecOn with
  | nil => exact absurd hx not_since_nil
  | append_singleton l a ih =>
    rcases since_append_singleton.mp hx with rfl | ⟨ha, hx⟩
    · rcases since_append_singleton.mp hy with rfl | ⟨ha, -⟩
      · rfl
      · exact absurd hqx ha
    · rcases since_append_singleton.mp hy with rfl | ⟨-, hy⟩
      · exact absurd hqy ha
      · exact ih hx hy

/-- `x` was entered when `p` held of the history so far, and nothing after it satisfies `q`. -/
def EnteredSince (p : List α → Prop) (q : α → Prop) (l : List α) (x : α) : Prop :=
  ∃ before after, l = before ++ x :: after ∧ p before ∧ ∀ y ∈ after, ¬ q y

section enteredSince

variable {p : List α → Prop}

theorem not_enteredSince_nil : ¬ EnteredSince p q [] x := by
  rintro ⟨before, after, h, -⟩
  exact List.cons_ne_nil _ _ (List.append_eq_nil_iff.mp h.symm).2

theorem enteredSince_append_singleton :
    EnteredSince p q (l ++ [a]) x ↔ (x = a ∧ p l) ∨ ¬ q a ∧ EnteredSince p q l x := by
  constructor
  · rintro ⟨before, after, h, hp, hno⟩
    induction after using List.reverseRecOn with
    | nil =>
      obtain ⟨rfl, ha⟩ := List.append_inj' h rfl
      obtain rfl := (List.cons.inj ha).1
      exact Or.inl ⟨rfl, hp⟩
    | append_singleton after b _ =>
      rw [← List.cons_append, ← List.append_assoc] at h
      obtain ⟨rfl, hb⟩ := List.append_inj' h rfl
      obtain rfl := (List.cons.inj hb).1
      exact Or.inr ⟨hno a (by simp), before, after, rfl, hp,
        fun y hy => hno y (List.mem_append_left _ hy)⟩
  · rintro (⟨rfl, hp⟩ | ⟨ha, before, after, rfl, hp, hno⟩)
    · exact ⟨l, [], rfl, hp, fun y hy => absurd hy List.not_mem_nil⟩
    · refine ⟨before, after ++ [a], by simp, hp, fun y hy => ?_⟩
      rcases List.mem_append.mp hy with hy | hy
      · exact hno y hy
      · rw [List.mem_singleton.mp hy]
        exact ha

end enteredSince

end History
