import ExperimentalCrdt.Cluster.Convergence

/-!
# Incremental deltas against full states

A delta is cut for the knowledge that the receiver once advertised. It leaves out the adds and the
removes this knowledge covers; a remove that is left out took out an add that the receiver has
dropped by itself. So for a receiver that knows at least as much, the delta is worth the full state
(`delta_agrees_with_full_state`). Knowledge only grows in a run without garbage collection
(`grows_of_reachable`), which is why an old advertisement will do.
-/

namespace ExperimentalCrdt

open ObservedRemove (Carries Faithful Merged)
open Transition (Reachable replay reachable_of_replay)

variable {E : Type} [DecidableEq E] {id : NodeId}

namespace Cluster

variable {c₀ c c' : Cluster E}

omit [DecidableEq E] in
theorem Grows.trans (h : Grows c₀ c) (h' : Grows c c') : Grows c₀ c' := by
  intro p k hk
  obtain ⟨k', hk', hserves, hle⟩ := h p k hk
  obtain ⟨k'', hk'', hserves', hle'⟩ := h' p k' hk'
  exact ⟨k'', hk'', fun hs => hserves' (hserves hs), fun n => Nat.le_trans (hle n) (hle' n)⟩

theorem grows_of_reachable {members : HashMap NodeId Bool}
    (h₀ : Reachable Cluster.step (fun _ l => l.withoutGc = true) (fixed members) c₀)
    (h : Reachable Cluster.step (fun _ l => l.withoutGc = true) c₀ c) : Grows c₀ c := by
  refine h.invariant (Grows.refl fun _ => rfl) fun s l s' hs hgrow hl hstep => ?_
  have hrows := (withoutGc_of_reachable (h₀.trans hs)).rows
  exact hgrow.trans (hrows.step (Label.stays_of_withoutGc hl) hstep).2

theorem Replicated.faithful_merge {G : Set Dot} (h : Replicated G c) {k : Core E id}
    (hk : c.core id = some k) {delta : OrSetDelta E} (hG : ∀ a, a ∉ G)
    (hcarries : Carries (events c) k.replica.dvv.known delta.view) :
    Faithful (events c) G
      ((k.replica.crdt.mergeDelta delta).view (k.replica.dvv.merge delta.causalContext).known) :=
  (h.faithful id k hk).merge h.unique hcarries
    (OrSet.merged_mergeDelta k.replica.crdt delta k.replica.dvv) fun _ a _ hmem =>
      absurd hmem (hG a)

/-- **A delta agrees with the full state**, for a receiver whose knowledge it was cut for some time
ago: merging either gives the same adds, the same tombstoned add-dots and the same effective map. -/
theorem delta_agrees_with_full_state (members : HashMap NodeId Bool) (c₀ c : Cluster E)
    (h₀ : Reachable Cluster.step (fun _ l => l.withoutGc = true) (fixed members) c₀)
    (h : Reachable Cluster.step (fun _ l => l.withoutGc = true) c₀ c) (sender receiver : NodeId)
    (s : Core E sender) (r₀ r : Core E receiver) (hs : c.core sender = some s)
    (hr₀ : c₀.core receiver = some r₀) (hr : c.core receiver = some r) :
    let delta := s.replica.crdt.deltaSince r₀.replica.dvv.effectiveMap s.replica.dvv
    let full := s.replica.crdt.fullState s.replica.dvv
    (∀ e a, (r.replica.crdt.mergeDelta delta).HasAdd e a ↔
      (r.replica.crdt.mergeDelta full).HasAdd e a) ∧
      (∀ a, a ∈ (r.replica.crdt.mergeDelta delta).tombstones ↔
        a ∈ (r.replica.crdt.mergeDelta full).tombstones) ∧
      (r.replica.dvv.merge delta.causalContext).effectiveMap =
        (r.replica.dvv.merge full.causalContext).effectiveMap := by
  intro delta full
  have hrep := (withoutGc_of_reachable (h₀.trans h)).replicated
  obtain ⟨r', hr', -, hle⟩ := grows_of_reachable h₀ h receiver r₀ hr₀
  rw [hr] at hr'
  obtain rfl := Option.some.inj hr'
  have hfs := hrep.faithful sender s hs
  have hknows : ∀ x : Dot, x.counter ≤ counterAt r₀.replica.dvv.effectiveMap x.nodeId →
      x ∈ r.replica.dvv.known := fun x hx => by
    rw [DotVersionVector.counterAt_effectiveMap] at hx
    exact Nat.le_trans hx (hle x.nodeId)
  -- both carry what the receiver needs, so merging either gives a faithful view of the same dots
  have hdelta := hrep.faithful_merge hr (fun _ => id)
    (OrSet.carries_deltaSince s.replica.crdt _ s.replica.dvv hfs hknows fun a ha => ha.elim)
  have hfull := hrep.faithful_merge hr (fun _ => id)
    (OrSet.carries_fullState s.replica.crdt s.replica.dvv hfs r.replica.dvv.known)
  refine ⟨fun e a => hdelta.adds_eq hfull rfl, fun a => ?_, rfl⟩
  have ht := hdelta.tombstoned_iff (a := a)
  have ht' := hfull.tombstoned_iff (a := a)
  rw [OrSet.tombstoned_view] at ht ht'
  exact ht.trans ht'.symm

/-- What `B` knew after the first pull of `concurrentAdd` will do once `B` has removed `x` and `A`
has added it again. -/
theorem delta_agrees_with_full_state_concurrentAdd :
    ∃ (c₀ c : Cluster String) (a : Core String "A") (b₀ b : Core String "B"),
      replay Cluster.step (fun _ l => l.withoutGc = true)
        (fixed (AList.ofPairs [("A", false), ("B", false)])) (concurrentAdd.take 10) = some c₀ ∧
      replay Cluster.step (fun _ l => l.withoutGc = true) c₀ ((concurrentAdd.drop 10).take 4) =
        some c ∧
      c.core "A" = some a ∧ c₀.core "B" = some b₀ ∧ c.core "B" = some b ∧
      ∀ e d, (b.replica.crdt.mergeDelta
          (a.replica.crdt.deltaSince b₀.replica.dvv.effectiveMap a.replica.dvv)).HasAdd e d ↔
        (b.replica.crdt.mergeDelta (a.replica.crdt.fullState a.replica.dvv)).HasAdd e d := by
  have hrun : ((replay Cluster.step (fun _ l => l.withoutGc = true)
      (fixed (AList.ofPairs [("A", false), ("B", false)]) : Cluster String)
          (concurrentAdd.take 10)).bind fun c₀ =>
        (replay Cluster.step (fun _ l => l.withoutGc = true) c₀
            ((concurrentAdd.drop 10).take 4)).map fun c =>
          (c.core "A").isSome && (c₀.core "B").isSome && (c.core "B").isSome) = some true :=
            by decide +kernel
  obtain ⟨c₀, hc₀, hrun⟩ := Option.bind_eq_some_iff.mp hrun
  obtain ⟨c, hc, hcores⟩ := Option.map_eq_some_iff.mp hrun
  simp only [Bool.and_eq_true, Option.isSome_iff_exists] at hcores
  obtain ⟨⟨⟨a, ha⟩, b₀, hb₀⟩, b, hb⟩ := hcores
  exact ⟨c₀, c, a, b₀, b, hc₀, hc, ha, hb₀, hb,
    (delta_agrees_with_full_state _ c₀ c (reachable_of_replay _ .start hc₀)
      (reachable_of_replay _ .start hc)
      "A" "B" a b₀ b ha hb₀ hb).1⟩

end Cluster

end ExperimentalCrdt
