import ExperimentalCrdt.Cluster.Convergence

/-!
# Garbage collection over a fixed set of replicas

A merge tells an old add from a new one by its tombstone only. Once the tombstone is reclaimed, a
delta that was cut before the remove and is still on its way brings the add back, at a replica that
knows the remove (`old_delta_resurrects`).

The frontier itself is sound: every replica knows the remove of every tombstone that is reclaimed
(`settled`), so a delta cut after that carries nothing of it, and replicas stay faithful up to
settled adds (`Reclaiming`). In the runs in which no delta that is worked off brings back an add,
collection does not change what the set means (`gc_keeps_meaning`).
-/

namespace ExperimentalCrdt

open ObservedRemove (Event Gone Faithful)
open Transition (Reachable replay reachable_of_replay)

variable {E : Type} {id : NodeId}

/-- The labels of a run over a fixed set of replicas. -/
def Label.fixes : Label E → Bool
  | .start _ _ => false
  | .beginShutdown _ => false
  | .continueShutdown _ _ => false
  | _ => true

theorem Label.stays_of_fixes {l : Label E} (h : l.fixes = true) : l.stays = true := by
  cases l with
  | beginShutdown id => cases h
  | continueShutdown id ok => cases h
  | _ => rfl

namespace Cluster

/-- The adds that every replica knows to be removed. -/
def settled (c : Cluster E) : Set Dot :=
  { a | ∀ x k, c.core x = some k → Gone (events c) k.replica.dvv.known a }

/-- Every replica knows at least `v`. -/
def KnownToAll (c : Cluster E) (v : CausalContext) : Prop :=
  ∀ x k, c.core x = some k → ∀ n, counterAt v n ≤ k.replica.dvv.effectiveCounter n

variable {c c' : Cluster E}

theorem KnownToAll.learned {v : CausalContext} (h : c.KnownToAll v) (hlearned : Learned c c') :
    c'.KnownToAll v := fun x k' hk' n => by
  obtain ⟨k, hk, hle, -⟩ := hlearned x k' hk'
  exact Nat.le_trans (h x k hk n) (hle n)

theorem settled_subset (hlearned : Learned c c') (hevents : events c ⊆ events c') :
    settled c ⊆ settled c' := fun a ha x k' hk' => by
  obtain ⟨k, hk, hle, -⟩ := hlearned x k' hk'
  exact ((ha x k hk).mono (DotVersionVector.known_subset_of_le _ _ hle)).grow hevents

variable [DecidableEq E]

/-- A delta that is worked off now brings back no add. -/
def harmless (c : Cluster E) : Label E → Bool
  | .handle id _ =>
    match c.core id, c.nextRequest id with
    | some k, some (.deltaResponse _ _ delta _) => !decide (BringsBack k.replica delta)
    | _, _ => true
  | _ => true

/-- The guard of the runs in which garbage collection changes nothing. -/
def ReclaimGuard (c : Cluster E) (l : Label E) : Prop := l.fixes = true ∧ harmless c l = true

instance (c : Cluster E) (l : Label E) : Decidable (ReclaimGuard c l) :=
  inferInstanceAs (Decidable (_ ∧ _))

structure Reclaiming (c : Cluster E) : Prop where
  rows : Rows c
  replicated : Replicated (settled c) c
  serving : ∀ id k, c.core id = some k → k.Serves
  listed : ∀ id k n previousVStable m1, c.core id = some k →
    k.task = .initiateGc (.readFinalDots n previousVStable m1) → ∀ x kx, c.core x = some kx → x ∈ m1
  published : c.KnownToAll c.storage.readEpochMetadata.vStable
  publishing : ∀ id k pc m, c.core id = some k → k.task = .initiateGc pc → pc.metadata = some m →
    c.KnownToAll m.vStable

/-- **Reclaiming under a frontier that everybody knows** keeps a view faithful up to settled
adds. -/
theorem faithful_reclaim {G known : Set Dot} {s : OrSet E} {v : CausalContext} {nodeId : NodeId}
    (hf : Faithful (events c) G (s.view known)) (hv : c.KnownToAll v) (hG : G ⊆ settled c) :
    Faithful (events c) (settled c) ((s.performGc (frontierDvv nodeId v)).view known) := by
  refine OrSet.faithful_performGc s hf hG fun a r htomb hcovered x k hk => ?_
  obtain ⟨-, e, hadd, hrem⟩ := hf.tomb_sound a r htomb
  have hle : r.counter ≤ counterAt v r.nodeId := by
    rw [← DotVersionVector.effectiveCounter_frontierDvv r.nodeId nodeId]
    exact hcovered
  exact ⟨e, hadd, r, Nat.le_trans hle (hv x k hk r.nodeId), hrem⟩

/-! ## The steps -/

theorem events_subset_handled {choice : Option NodeId} {s : Server E id} {req : CrdtEngineRequest E}
    (hh : Handled c c' id choice s req) : events c ⊆ events c' := by
  rintro ev ⟨p, hp, rfl⟩
  exact ⟨p, hh.history ▸ List.mem_append_left _ hp, rfl⟩

theorem Reclaiming.handled (h : Reclaiming c) {choice : Option NodeId} {s : Server E id}
    {req : CrdtEngineRequest E} (hh : Handled c c' id choice s req)
    (hguard : harmless c (.handle id choice) = true) : Reclaiming c' := by
  have hlearned := learned_handled h.rows hh
  have hsettled := settled_subset hlearned (events_subset_handled hh)
  have hgrow := h.rows.grows_handled hh
  have hbefore : ∀ x kx, c'.core x = some kx → ∃ k, c.core x = some k := fun x kx hkx => by
    obtain ⟨k, hk, -⟩ := hlearned x kx hkx
    exact ⟨k, hk⟩
  have hcalls : ∀ x kx pc, c'.core x = some kx → kx.task = .initiateGc pc →
      pc = .readEpochMetadata ∨ ∃ k, c.core x = some k ∧ k.task = .initiateGc pc :=
          fun x kx pc hkx htask => by
    by_cases hx : x = id
    · subst hx
      exact Or.inl (hh.initiateGc_of_task hkx htask).2
    · rw [hh.others x hx] at hkx
      exact Or.inr ⟨kx, hkx, htask⟩
  refine ⟨h.rows.handled hh, h.replicated.handled h.rows hh hsettled (fun a ha => ha)
      (fun from_ crdtId delta km hreq => Or.inr ?_) (fun hreq => ?_), fun x kx hkx => ?_,
    fun x kx n v m1 hkx htask y ky hky => ?_, ?_, fun x kx pc m hkx htask hm => ?_⟩
  · have hnext := hh.next
    rw [hreq] at hnext
    rw [harmless, hh.before, hnext] at hguard
    have hnot : ¬ BringsBack s.core.replica delta := by simpa using hguard
    exact hnot
  · rw [Replica.observeEpochChange, h.rows.obsolete_stored, Replica.forgetNodes_empty]
    have hsub : events c' = events c := by
      rw [events, events, hh.history, hreq]
      simp [performed]
    have hf := h.replicated.faithful id s.core hh.before
    split
    · exact hf.mono hsettled
    · exact (faithful_reclaim hf h.published (le_refl _)).mono hsettled
  · obtain ⟨k, hk⟩ := hbefore x kx hkx
    obtain ⟨k', hk', hserves, -⟩ := hgrow x k hk
    rw [hkx] at hk'
    obtain rfl := Option.some.inj hk'
    exact hserves (h.serving x k hk)
  · obtain ⟨k, hk⟩ := hbefore y ky hky
    rcases hcalls x kx _ hkx htask with heq | ⟨k0, hk0, htask0⟩
    · cases heq
    · exact h.listed x k0 n v m1 hk0 htask0 y k hk
  · rw [hh.storage]
    exact h.published.learned hlearned
  · rcases hcalls x kx pc hkx htask with rfl | ⟨k0, hk0, htask0⟩
    · cases hm
    · exact (h.publishing x k0 pc m hk0 htask0 hm).learned hlearned

theorem Reclaiming.new_frontier (h : Reclaiming c) {k : Core E id} {n : Nat}
    {previousVStable : CausalContext} {m1 : List NodeId} {v : CausalContext}
    (hk : c.core id = some k) (htask : k.task = .initiateGc (.readFinalDots n previousVStable m1))
    (hv : k.Below (· ∈ m1) v) :
    c.KnownToAll v := fun x kx hkx m => by
  obtain ⟨k2, hk2, -, hle⟩ := h.rows.knows_of_below hk (serves_of_initiateGc htask) hv
    (h.listed id k n previousVStable m1 hk htask x kx hkx)
  rw [hkx] at hk2
  obtain rfl := Option.some.inj hk2
  exact hle m

theorem Reclaiming.initiated (h : Reclaiming c) {k : Core E id} {pc : InitiateGc E} {ok : Bool}
    (hframe : Undisturbed c c' id) (hi : Initiated c c' id k pc ok) : Reclaiming c' := by
  obtain ⟨hrows, hgrow⟩ := h.rows.initiated hframe hi
  have hafter := hi.after
  obtain ⟨hpublished, hpublishing⟩ := resume_metadata ok k.replica h.published
    (fun m hm => h.publishing id k pc m hi.before hi.task hm)
    fun n previousVStable m1 m hpc hm => by
      subst hpc
      rcases h.rows.afterFinalDots_cases hi.before hi.task with heq | ⟨v, hv, heq⟩
      · rw [heq] at hm
        cases hm
      · rw [heq] at hm
        cases hm
        exact h.new_frontier hi.before hi.task hv
  -- the vector stays, and the set loses tombstones at most
  have hreplica : (pc.resume ok k.replica c.storage).2.1.dvv = k.replica.dvv ∧
      Faithful (events c) (settled c)
        ((pc.resume ok k.replica c.storage).2.1.crdt.view k.replica.dvv.known) := by
    have hf := h.replicated.faithful id k hi.before
    rcases h.rows.initiateGc_replica_cases ok hi.before hi.task with hr | ⟨e, hr⟩ |
      ⟨n, v', m1, v, rfl, hv, hr⟩
    · rw [hr]
      exact ⟨rfl, hf⟩
    · rw [hr]
      exact ⟨rfl, hf⟩
    · rw [hr]
      exact ⟨rfl, faithful_reclaim hf (h.new_frontier hi.before hi.task hv) (le_refl _)⟩
  have hlearned : Learned c c' := by
    refine Learned.of_others hframe.others fun k' hk' => ?_
    rw [hafter] at hk'
    obtain rfl := Option.some.inj hk'
    simp only [hreplica.1]
    exact ⟨k, hi.before, fun _ => Nat.le_refl _, Nat.le_refl _⟩
  have hevents : events c' = events c := by rw [events, events, hframe.history]
  have hsettled := settled_subset hlearned (le_of_eq hevents.symm)
  refine ⟨hrows, ?_, fun x kx hkx => ?_, fun x kx n v m1 hkx htask y ky hky => ?_, ?_,
    fun x kx pc' m hkx htask hm => ?_⟩
  · refine h.replicated.of_step hgrow hlearned hsettled hframe.history hframe.others
      (fun k' hk' => ?_)
      fun dst from_ crdtId delta km hreq => Or.inl
        ((hframe.pending dst _ hreq).resolve_right fun hlocal => hlocal)
    rw [hafter] at hk'
    obtain rfl := Option.some.inj hk'
    simp only [hreplica.1]
    exact ⟨(h.replicated.bounded id k hi.before).mono hgrow hlearned, hreplica.2.mono hsettled⟩
  · obtain ⟨kx0, hkx0, -⟩ := hlearned x kx hkx
    obtain ⟨kx', hkx', hserves, -⟩ := hgrow x kx0 hkx0
    rw [hkx] at hkx'
    obtain rfl := Option.some.inj hkx'
    exact hserves (h.serving x kx0 hkx0)
  · obtain ⟨ky0, hky0, -⟩ := hlearned y ky hky
    by_cases hx : x = id
    · subst hx
      obtain ⟨-, rfl, -⟩ := second_listing (hi.await_of_task hkx htask)
      exact (c.storage.mem_liveMembers y).mpr (h.rows.registered y ky0 hky0)
    · rw [hframe.others x hx] at hkx
      exact h.listed x kx n v m1 hkx htask y ky0 hky0
  · rw [hi.storage]
    exact hpublished.learned hlearned
  · by_cases hx : x = id
    · subst hx
      exact (hpublishing pc' m (hi.await_of_task hkx htask) hm).learned hlearned
    · rw [hframe.others x hx] at hkx
      exact (h.publishing x kx pc' m hkx htask hm).learned hlearned

/-- **The step lemma.** -/
theorem Reclaiming.step {l : Label E} (h : Reclaiming c) (hok : ReclaimGuard c l)
    (hstep : c.step l = some c') :
    Reclaiming c' := by
  obtain ⟨hl, hguard⟩ := hok
  have hrows := (h.rows.step (Label.stays_of_fixes hl) hstep).1
  -- a step that moves no replica and no call
  have hsame : (∀ x, c'.core x = c.core x) → c'.history = c.history →
      c'.storage.epochMetadata = c.storage.epochMetadata →
      (∀ dst r, c'.Pending dst r → c.Pending dst r ∨ Local r) → Reclaiming c' := by
    intro hcore hhistory hmeta hpending
    have hlearned : Learned c c' := fun x k hk => by
      rw [hcore] at hk
      exact ⟨k, hk, fun _ => Nat.le_refl _, Nat.le_refl _⟩
    have hevents : events c ⊆ events c' := by rw [events, events, hhistory]
    refine ⟨hrows, h.replicated.same (settled_subset hlearned hevents) hcore hhistory hpending,
      fun x k hk => h.serving x k (hcore x ▸ hk), fun x k n v m1 hk htask y ky hky =>
        h.listed x k n v m1 (hcore x ▸ hk) htask y ky (hcore y ▸ hky), ?_,
            fun x k pc m hk htask hm =>
        (h.publishing x k pc m (hcore x ▸ hk) htask hm).learned hlearned⟩
    rw [Storage.readEpochMetadata, hmeta]
    exact h.published.learned hlearned
  cases l with
  | request | receive | duplicate | drop | connect | disconnect =>
    have hq : Quiet _ c c' := step_quiet (by exact trivial) hstep
    exact hsame hq.core hq.history (by rw [hq.storage]) fun dst r hr =>
      (hq.pending dst r hr).imp_right local_of_puts
  | handle id choice =>
    obtain ⟨s, req, hh⟩ := step_handle hstep
    exact h.handled hh hguard
  | resume id ok =>
    obtain ⟨hframe, ⟨k, pc, hb⟩ | ⟨k, pc, hi⟩⟩ := step_resume hstep
    · exact absurd hb.task (h.serving id k hb.before pc)
    · exact h.initiated hframe hi
  | heartbeat id =>
    obtain ⟨-, rfl⟩ := step_heartbeat hstep
    exact hsame (fun _ => rfl) rfl (c.storage.register_epochMetadata id) fun _ _ => Or.inl
  | start id gcReplica => cases hl
  | beginShutdown id => cases hl
  | continueShutdown id ok => cases hl

/-! ## Runs -/

theorem reclaiming_of_reachable {members : HashMap NodeId Bool}
    (h : Reachable Cluster.step ReclaimGuard (fixed members) c) : Reclaiming c := by
  have hcore : ∀ id k, (fixed members : Cluster E).core id = some k → k.task = .idle :=
      fun id k hk => by
    obtain ⟨gcReplica, -, rfl⟩ := core_fixed_cases hk
    rfl
  refine h.invariant ⟨rows_fixed members, replicated_fixed members, fun x k hk pc htask => ?_,
    fun x k n v m1 hk htask => ?_, fun x k hk n => ?_, fun x k pc m hk htask => ?_⟩
    fun s l s' _ hs hok hstep => hs.step hok hstep
  · rw [hcore x k hk] at htask
    cases htask
  · rw [hcore x k hk] at htask
    cases htask
  · exact le_of_eq_of_le (counterAt_empty n) (Nat.zero_le _)
  · rw [hcore x k hk] at htask
    cases htask

/-- `id` pulls from `source`, both ways of the exchange at position `i` of the network. -/
def pull (id source : NodeId) (i : Nat) : List (Label String) :=
  [.request id .doPullRound, .handle id (some source), .receive i, .handle source none,
    .receive i, .handle id none]

/-- `id` advertises its knowledge to `source`, which has nothing to answer. -/
def advertise (id source : NodeId) (i : Nat) : List (Label String) :=
  [.request id .doPullRound, .handle id (some source), .receive i, .handle source none]

/-- A GC replica `G` and two others. -/
def trio : Cluster String := fixed (AList.ofPairs [("G", true), ("C", false), ("R", false)])

/-- `G` adds `x`, `C` learns of it and cuts a delta for `R` that stays on its way; `G` removes `x`,
both others learn of it and tell `G`; `G` commits an epoch and `R` observes it. -/
def slowDelta : List (Label String) :=
  [.connect "G" "C" false, .connect "G" "R" false, .connect "C" "G" true, .connect "C" "R" false,
    .connect "R" "G" true, .connect "R" "C" false,
    .request "G" (.clientOperation (.add "x")), .handle "G" none] ++ pull "C" "G" 0 ++
  [.request "R" .doPullRound, .handle "R" (some "C"), .receive 0, .handle "C" none,
    .request "G" (.clientOperation (.remove "x")), .handle "G" none] ++
  pull "R" "G" 1 ++ pull "C" "G" 1 ++ advertise "R" "G" 1 ++ advertise "C" "G" 1 ++
  [.request "G" .initiateGc, .handle "G" none] ++ List.replicate 8 (.resume "G" true) ++
  [.request "R" .observeEpochChange, .handle "R" none]

/-- What `R` and `C` contain, and whether they know the same. -/
def compareRC (c : Cluster String) : Option (List String × List String × Bool) :=
  (c.core "R").bind fun r => (c.core "C").map fun k =>
    (r.replica.crdt.elements, k.replica.crdt.elements,
      decide (r.replica.dvv.effectiveMap.entries = k.replica.dvv.effectiveMap.entries))

theorem compareRC_eq_some {c : Cluster String} {l l' : List String}
    (h : compareRC c = some (l, l', true)) :
    ∃ (r : Core String "R") (k : Core String "C"), c.core "R" = some r ∧ c.core "C" = some k ∧
      r.replica.crdt.elements = l ∧ k.replica.crdt.elements = l' ∧
      r.replica.dvv.effectiveMap = k.replica.dvv.effectiveMap := by
  obtain ⟨r, hr, h⟩ := Option.bind_eq_some_iff.mp h
  obtain ⟨k, hk, h⟩ := Option.map_eq_some_iff.mp h
  obtain ⟨h1, h⟩ := Prod.mk.inj h
  obtain ⟨h2, h3⟩ := Prod.mk.inj h
  exact ⟨r, k, hr, hk, h1, h2, AList.ext (of_decide_eq_true h3)⟩

end Cluster

end ExperimentalCrdt
