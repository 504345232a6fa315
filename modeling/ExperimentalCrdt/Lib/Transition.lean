import Mathlib.Order.WellFounded
import Mathlib.Tactic.Common

/-!
# Guarded executions of a partial step function

A system is a step function `step : S → L → Option S`, where `none` means that the label is not
enabled. `Reachable step ok s₀` are the states that executions from `s₀` reach when every step also
satisfies the guard `ok`: the assumptions of a theorem about runs go into the guard. An invariant is
proved by `Reachable.invariant`, with the reachability of the state at hand; `replay` executes a
given list of labels, so that a concrete run can be checked by evaluation.

`Halts step allowed s` says that the executions from `s` by allowed labels are finite. It is proved
by a measure that every step lowers (`halts_of_descent`), and refuted by a property that some steps
restore (`not_halts_of_loop`).
-/

namespace Transition

variable {S L : Type}

inductive Reachable (step : S → L → Option S) (ok : S → L → Prop) (s₀ : S) : S → Prop where
  | start : Reachable step ok s₀ s₀
  | next {s s' : S} {l : L} (prior : Reachable step ok s₀ s) (guard : ok s l)
      (taken : step s l = some s') : Reachable step ok s₀ s'

variable {step : S → L → Option S} {ok ok' : S → L → Prop} {s₀ s : S}

/-- What holds at the start and is preserved by every guarded step from a reachable state holds in
every reachable state. -/
theorem Reachable.invariant {P : S → Prop} (hinit : P s₀)
    (hstep : ∀ s l s', Reachable step ok s₀ s → P s → ok s l → step s l = some s' → P s')
    (h : Reachable step ok s₀ s) : P s := by
  induction h with
  | start => exact hinit
  | next prior guard taken ih => exact hstep _ _ _ prior ih guard taken

theorem Reachable.trans {s' : S} (h : Reachable step ok s₀ s) (h' : Reachable step ok s s') :
    Reachable step ok s₀ s' := by
  induction h' with
  | start => exact h
  | next _ guard taken ih => exact .next ih guard taken

theorem Reachable.head_cases {s' : S} (h : Reachable step ok s s') :
    s' = s ∨ ∃ l u, ok s l ∧ step s l = some u ∧ Reachable step ok u s' := by
  induction h with
  | start => exact Or.inl rfl
  | next _ guard taken ih =>
    right
    rcases ih with rfl | ⟨l, u, hl, hu, hrest⟩
    · exact ⟨_, _, guard, taken, .start⟩
    · exact ⟨l, u, hl, hu, .next hrest guard taken⟩

theorem Reachable.weaken (hok : ∀ s l, ok s l → ok' s l) (h : Reachable step ok s₀ s) :
    Reachable step ok' s₀ s := by
  induction h with
  | start => exact .start
  | next prior guard taken ih => exact .next ih (hok _ _ guard) taken

/-- Execute the labels one after another, as far as they are enabled and guarded. -/
def replay (step : S → L → Option S) (ok : S → L → Prop) [∀ s l, Decidable (ok s l)] (s : S) :
    List L → Option S
  | [] => some s
  | l :: ls => if ok s l then (step s l).bind fun s' => replay step ok s' ls else none

/-- A replayed state is reachable. -/
theorem reachable_of_replay [∀ s l, Decidable (ok s l)] (ls : List L) :
    ∀ {s s' : S}, Reachable step ok s₀ s → replay step ok s ls = some s' →
    Reachable step ok s₀ s' := by
  induction ls with
  | nil =>
    intro s s' hs h
    obtain rfl := Option.some.inj h
    exact hs
  | cons l ls ih =>
    intro s s' hs h
    rw [replay] at h
    split at h
    · next hok =>
      obtain ⟨t, ht, hrest⟩ := Option.bind_eq_some_iff.mp h
      exact ih (.next hs hok ht) hrest
    · cases h

theorem reachable_of_isSome [∀ s l, Decidable (ok s l)] {ls : List L} {d : S}
    (h : (replay step ok s₀ ls).isSome = true) :
    Reachable step ok s₀ ((replay step ok s₀ ls).getD d) := by
  obtain ⟨s, hs⟩ := Option.isSome_iff_exists.mp h
  rw [hs, Option.getD_some]
  exact reachable_of_replay ls .start hs

theorem replay_cons [∀ s l, Decidable (ok s l)] {s' : S} {l : L} (hok : ok s l)
    (hstep : step s l = some s') (ls : List L) :
    replay step ok s (l :: ls) = replay step ok s' ls := by
  rw [replay, if_pos hok, hstep, Option.bind_some]

theorem replay_append [∀ s l, Decidable (ok s l)] (ls ls' : List L) : ∀ s : S,
    replay step ok s (ls ++ ls') = (replay step ok s ls).bind fun s' => replay step ok s' ls' := by
  induction ls with
  | nil => exact fun s => rfl
  | cons l ls ih =>
    intro s
    rw [List.cons_append, replay, replay]
    split
    · cases step s l with
      | none => rfl
      | some s' => exact ih s'
    · rfl

/-! ## Termination -/

variable {allowed : L → Prop}

/-- No execution from `s` by allowed labels is infinite. -/
def Halts (step : S → L → Option S) (allowed : L → Prop) (s : S) : Prop :=
  ¬ ∃ run : Nat → S, run 0 = s ∧ ∀ n, ∃ l, allowed l ∧ step (run n) l = some (run (n + 1))

theorem halts_iff_acc : Halts step allowed s ↔
    Acc (fun s' s => ∃ l, allowed l ∧ step s l = some s') s := by
  unfold Halts
  rw [← not_iff_comm, not_acc_iff_exists_descending_chain]

/-- What every step makes smaller ends, up to steps into states from which it ends anyway. -/
theorem halts_of_descent {A : Type} {r : A → A → Prop} (hwf : WellFounded r) (measure : S → A)
    {P : S → Prop}
    (hstep : ∀ s l s', P s → allowed l → step s l = some s' →
      Halts step allowed s' ∨ P s' ∧ r (measure s') (measure s)) (hs : P s) :
      Halts step allowed s := by
  have hall : ∀ a s, measure s = a → P s → Halts step allowed s := by
    intro a
    induction a using hwf.induction with
    | _ a ih =>
      rintro s rfl hs
      rw [halts_iff_acc]
      refine ⟨_, fun s' ⟨l, hl, hs'⟩ => ?_⟩
      rw [← halts_iff_acc]
      rcases hstep s l s' hs hl hs' with hhalts | ⟨hs', hlt⟩
      · exact hhalts
      · exact ih (measure s') hlt s' rfl hs'
  exact hall _ s rfl hs

/-- What some steps restore goes on forever. -/
theorem not_halts_of_loop {P : S → Prop}
    (hloop : ∀ s, P s → ∃ l u s', allowed l ∧ step s l = some u ∧
      Reachable step (fun _ l => allowed l) u s' ∧ P s') (hs : P s) : ¬ Halts step allowed s := by
  rw [halts_iff_acc]
  intro hacc
  have hall : ∀ s, Acc (fun s' s => ∃ l, allowed l ∧ step s l = some s') s →
      ∀ t, Reachable step (fun _ l => allowed l) s t → ¬ P t := by
    intro s hacc
    induction hacc with
    | intro s _ ih =>
      intro t ht hP
      rcases ht.head_cases with rfl | ⟨l, u, hl, hu, hrest⟩
      · obtain ⟨l, u, t', hl, hu, hrest, hP'⟩ := hloop t hP
        exact ih u ⟨l, hl, hu⟩ t' hrest hP'
      · exact ih u ⟨l, hl, hu⟩ t hrest hP
  exact hall s hacc s .start hs

end Transition
