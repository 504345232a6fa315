import ExperimentalCrdt.Cluster.Frontier
import ExperimentalCrdt.Cluster.Seen

/-!
# What is known of the nodes that are forgotten

A node is forgotten by whoever commits an epoch that declares it obsolete or observes one, and every
live replica should have seen its events by then. In the runs of `ForgetGuard` they have
(`only_seen_nodes_are_forgotten`):

* the final dot of a node covers its events (`Departures`), and a listed replica has seen what its
  row says (`Remembers`), so a node that is rightly classified has been seen by all that were
  listed;
* all that are live were listed, or join meanwhile, or later. Those adopt the stored epoch state,
  whose writer had seen the nodes that are obsolete by then (`Pipeline`).

The guard names what goes wrong otherwise: a node without a final dot on record that not all listed
rows mention, a restart under an id whose rows are still about, an operation after the final dot was
taken, a bootstrap that fails, one that ends while a frontier is computed without it, and an epoch
state that a replica writes at the end of its shutdown.
-/

namespace ExperimentalCrdt

open Transition (Reachable replay reachable_of_replay)

variable {E : Type} {id : NodeId}

/-- A call past its second listing has listed `j`, or declares no node obsolete. -/
def EngineTask.countsOn (j : NodeId) : EngineTask E → Bool
  | .initiateGc (.readFinalDots _ _ m1) => decide (j ∈ m1)
  | .initiateGc (.writeEpochState _ epochMetadata) => epochMetadata.obsoleteDots.keys.isEmpty
  | _ => true

namespace Cluster

/-! ## The guard -/

/-- A server starts under an id of which nothing is around. -/
def startsAfresh (c : Cluster E) : Label E → Bool
  | .start id _ => c.noTrace id
  | _ => true

/-- A client operation is worked off only as long as the final dot has not been taken. -/
def operatesInTime (c : Cluster E) : Label E → Bool
  | .handle id _ =>
    match c.core id, c.nextRequest id with
    | some k, some (.clientOperation _) =>
      (match k.shutdown with
        | .putFinalDot _ => false
        | _ => true) && c.storage.finalDots.all fun d => decide (d.1 ≠ id)
    | _, _ => true
  | _ => true

/-- No read of a bootstrap fails, and a bootstrap ends only while every call counts on the
joiner. -/
def joinsCounted (c : Cluster E) : Label E → Bool
  | .resume id ok =>
    match c.task id with
    | some (.newReplicaBootstrap _) =>
      ok && (!c.adopts id (.resume id ok) || c.nodes.entries.all fun s =>
        s.2.engine.task.countsOn id)
    | _ => true
  | _ => true

/-- A replica at the end of its shutdown writes no epoch state. -/
def writesInTime (c : Cluster E) : Label E → Bool
  | .resume id _ =>
    match c.core id with
    | none => true
    | some k =>
      match k.task with
      | .initiateGc (.writeEpochState _ _) => decide (k.shutdown ≠ .abort)
      | _ => true
  | _ => true

/-- When a frontier is computed, every node with a row that is neither listed nor has a final dot on
record is mentioned by all listed rows. -/
def classifiesRecorded (c : Cluster E) : Label E → Bool
  | .resume id ok =>
    match c.core id with
    | none => true
    | some k =>
      match k.task with
      | .initiateGc (.readFinalDots _ _ m1) =>
        !ok || k.replica.gc.matrixClock.all fun mc =>
          !decide (GcCoordinator.HasRows mc id m1) || mc.keys.all fun p =>
            decide (p ∈ m1) || decide (p ∈ c.storage.readFinalDots) ||
              decide (MentionedByAll (k.replica.gc.rowOf id k.replica.dvv.effectiveMap) m1 p)
      | _ => true
  | _ => true

/-- The guard of the runs in which only seen nodes are forgotten. -/
def ForgetGuard (c : Cluster E) (l : Label E) : Prop :=
  (startsAfresh c l = true ∧ operatesInTime c l = true) ∧
    (joinsCounted c l = true ∧ writesInTime c l = true) ∧ classifiesRecorded c l = true

instance (c : Cluster E) (l : Label E) : Decidable (ForgetGuard c l) :=
  inferInstanceAs (Decidable (_ ∧ _))

/-! ## Final dots cover the events -/

/-- Whoever has not come to the end of its shutdown is registered; and the counter of a node, the
final dot that was taken and the one that is stored cover all its events. -/
structure Departures (c : Cluster E) : Prop where
  asked : ∀ id (s : Server E id), c.nodes.lookup id = some s → s.Asked
  registered : ∀ id k, c.core id = some k → k.shutdown ≠ .abort → id ∈ c.storage.registrations
  counted : ∀ e ∈ c.history, ∀ k, c.core e.dot.nodeId = some k →
    e.dot.counter ≤ k.replica.dvv.dot.counter
  taken : ∀ e ∈ c.history, ∀ k d, c.core e.dot.nodeId = some k →
    k.shutdown = .putFinalDot d → e.dot.counter ≤ d
  stored : ∀ e ∈ c.history, ∀ f, (e.dot.nodeId, f) ∈ c.storage.finalDots → e.dot.counter ≤ f

variable [DecidableEq E]

/-- How the server `id` has come to `k'` by a step: it has just started, or it was there, has not
come back from the end of its shutdown, has taken its counter if it has taken a final dot, and
serves if it served or has just ended its bootstrap. -/
def CameTo (c c' : Cluster E) (l : Label E) (k' : Core E id) : Prop :=
  (∃ gcReplica, l = .start id gcReplica ∧
      k' = ⟨.new gcReplica, .newReplicaBootstrap .readEpochMetadata, .running⟩) ∨
    ∃ k, c.core id = some k ∧ (k.shutdown = .abort → k'.shutdown = .abort) ∧
      (∀ d, k'.shutdown = .putFinalDot d → k.shutdown = .putFinalDot d ∨
        d = k'.replica.dvv.dot.counter) ∧
      (k'.Serves → k.Serves ∨ ∃ pc ok, l = .resume id ok ∧ Bootstrapped c c' id k pc ok)

variable {c c' : Cluster E}

theorem CameTo.stay {l : Label E} {k : Core E id} (hk : c.core id = some k) : CameTo c c' l k :=
  Or.inr ⟨k, hk, fun h => h, fun _ h => Or.inl h, Or.inl⟩

omit [DecidableEq E] in
theorem Departures.awaits (h : Departures c) (hnext : c.nextRequest id = some .deregistrationState)
    {k : Core E id} (hk : c.core id = some k) : k.shutdown = .awaitFinalDot := by
  obtain ⟨s, hs, hhead⟩ := Option.bind_eq_some_iff.mp hnext
  rw [c.core_of_lookup hs] at hk
  obtain rfl := Option.some.inj hk
  obtain ⟨rest, hrx⟩ := List.head?_eq_some_iff.mp hhead
  have hasked := h.asked id s hs
  rw [Server.Asked, hrx, List.countP_cons_of_pos rfl] at hasked
  by_contra hphase
  have hphase : s.shutdown ≠ .awaitFinalDot := hphase
  rw [if_neg hphase] at hasked
  exact Nat.succ_ne_zero _ hasked

/-- **How servers come along.** -/
theorem Departures.cameTo (h : Departures c) {l : Label E} (hstep : c.step l = some c')
    {k' : Core E id} (hk' : c'.core id = some k') : CameTo c c' l k' := by
  cases step_core hstep id with
  | same hsame => exact .stay (hsame.symm.trans hk')
  | @handled choice s req hh =>
    obtain rfl := Option.some.inj (hk'.symm.trans hh.after)
    have hserves : s.core.Serves := fun pc htask => by
      rw [show s.core.task = .idle from hh.idle] at htask
      cases htask
    cases req with
    | deregistrationState =>
      have hphase := h.awaits hh.next hh.before
      refine Or.inr ⟨s.core, hh.before, fun habort => ?_, fun d hd => Or.inr ?_,
        fun _ => Or.inl hserves⟩
      · rw [hphase] at habort
        cases habort
      · cases hd
        rfl
    | _ =>
      exact Or.inr ⟨s.core, hh.before, fun h => h, fun d hd => Or.inl hd, fun _ => Or.inl hserves⟩
  | @bootstrapped ok k pc hb =>
    obtain rfl := Option.some.inj (hk'.symm.trans hb.after)
    exact Or.inr ⟨k, hb.before, fun h => h, fun d hd => Or.inl hd,
      fun _ => Or.inr ⟨pc, ok, rfl, hb⟩⟩
  | @initiated ok k pc hi =>
    obtain rfl := Option.some.inj (hk'.symm.trans hi.after)
    refine Or.inr ⟨k, hi.before, fun h => h, fun d hd => Or.inl hd,
      fun _ => Or.inl fun pc' htask => ?_⟩
    rw [hi.task] at htask
    cases htask
  | started hnone hafter => exact Or.inl ⟨_, rfl, Option.some.inj (hk'.symm.trans hafter)⟩
  | @shutdown l k phase hbefore hafter hend hput =>
    obtain rfl := Option.some.inj (hk'.symm.trans hafter)
    exact Or.inr ⟨k, hbefore, fun habort => absurd habort hend, fun d hd => absurd hd (hput d),
      Or.inl⟩
  | gone hbefore hend hafter =>
    rw [hk'] at hafter
    cases hafter

theorem step_registrations {l : Label E} (hstep : c.step l = some c') {p : NodeId}
    (hp : p ∈ c.storage.registrations) :
    p ∈ c'.storage.registrations ∨ ∃ k', c'.core p = some k' ∧ k'.shutdown = .abort := by
  cases l with
  | request | receive | duplicate | drop | connect | disconnect =>
    have hq : Quiet _ c c' := step_quiet (by exact trivial) hstep
    exact Or.inl (hq.storage ▸ hp)
  | handle x choice =>
    obtain ⟨s, req, hh⟩ := step_handle hstep
    exact Or.inl (hh.storage ▸ hp)
  | resume x ok =>
    obtain ⟨-, ⟨k, pc, hb⟩ | ⟨k, pc, hi⟩⟩ := step_resume hstep
    · exact Or.inl (hb.storage ▸ hp)
    · rw [hi.storage, (resume_keeps pc ok k.replica c.storage).1]
      exact Or.inl hp
  | start x gcReplica =>
    obtain ⟨-, -, -, hst, -⟩ := step_start hstep
    rw [hst]
    exact Or.inl ((c.storage.mem_register x p).mpr (Or.inr hp))
  | heartbeat x =>
    obtain ⟨-, rfl⟩ := step_heartbeat hstep
    exact Or.inl ((c.storage.mem_register x p).mpr (Or.inr hp))
  | beginShutdown x =>
    obtain ⟨-, hst, -⟩ := step_beginShutdown hstep
    exact Or.inl (hst ▸ hp)
  | continueShutdown x ok =>
    obtain ⟨-, -, k, hk, hcase⟩ := step_continueShutdown hstep
    rcases hcase with ⟨finalDot, -, hcase⟩ | ⟨-, hafter, hst⟩ | ⟨-, -, hst⟩
    · split at hcase
      · rw [hcase.2]
        exact Or.inl hp
      · exact Or.inl (hcase.2 ▸ hp)
    · by_cases hx : p = x
      · subst hx
        exact Or.inr ⟨_, hafter, rfl⟩
      · left
        rw [hst]
        split
        · exact AList.mem_erase.mpr ⟨hx, hp⟩
        · exact hp
    · exact Or.inl (hst ▸ hp)

theorem new_event {l : Label E} (hl : operatesInTime c l = true) (hstep : c.step l = some c')
    {e : Performed E} (he : e ∈ c'.history) :
    e ∈ c.history ∨ ∃ k k' : Core E e.dot.nodeId, c.core e.dot.nodeId = some k ∧
      c'.core e.dot.nodeId = some k' ∧ e.dot.counter = k'.replica.dvv.dot.counter ∧
      (∀ d, k'.shutdown ≠ .putFinalDot d) ∧ ∀ f, (e.dot.nodeId, f) ∉ c.storage.finalDots := by
  rcases step_history hstep with hsame | ⟨x, choice, s, op, rfl, hh⟩
  · exact Or.inl (hsame ▸ he)
  · rw [hh.history] at he
    refine (List.mem_append.mp he).imp_right fun he => ?_
    rw [performed, List.mem_singleton] at he
    subst he
    have hdot := nextDot_eq s
    generalize s.engine.nextDot = dot at hdot ⊢
    subst hdot
    simp only [operatesInTime, hh.before, hh.next, Bool.and_eq_true, List.all_eq_true,
      decide_eq_true_eq] at hl
    refine ⟨s.core, _, hh.before, hh.after, rfl, fun d hd => ?_, fun f hf => hl.2 _ hf rfl⟩
    have hphase : s.core.shutdown = .putFinalDot d := hd
    rw [hphase] at hl
    exact Bool.false_ne_true hl.1

/-- **The step lemma.** -/
theorem Departures.step (h : Departures c) {l : Label E} (hl : ForgetGuard c l)
    (hstep : c.step l = some c') :
    Departures c' := by
  obtain ⟨⟨hstart, hoperates⟩, -, -⟩ := hl
  have hcounted : ∀ e ∈ c'.history, ∀ k', c'.core e.dot.nodeId = some k' →
      e.dot.counter ≤ k'.replica.dvv.dot.counter := by
    intro e he k' hk'
    rcases new_event hoperates hstep he with hold | ⟨k, k'', -, hk'', hcounter, -, -⟩
    · rcases h.cameTo hstep hk' with ⟨gcReplica, rfl, -⟩ | ⟨k, hk, -⟩
      · exact absurd rfl (noTrace_history hstart e hold)
      · refine (h.counted e hold k hk).trans ?_
        rcases (step_stays hstep).2 _ k hk with ⟨k'', hk'', hle⟩ | ⟨ok, -, -, hnone⟩
        · rw [hk'] at hk''
          obtain rfl := Option.some.inj hk''
          exact hle
        · rw [hk'] at hnone
          cases hnone
    · rw [hk'] at hk''
      obtain rfl := Option.some.inj hk''
      exact hcounter.le
  refine ⟨fun id s' hs' => ?_, fun id k' hk' hphase => ?_, hcounted, fun e he k' d hk' hd => ?_,
    fun e he f hf => ?_⟩
  · rcases step_server hstep hs' with ⟨s, hs, hmove⟩ | ⟨gcReplica, -, rfl⟩
    · exact (h.asked id s hs).move hmove.queue
    · rfl
  · rcases h.cameTo hstep hk' with ⟨gcReplica, rfl, -⟩ | ⟨k, hk, habort, -, -⟩
    · obtain ⟨-, -, -, hst, -⟩ := step_start hstep
      rw [hst]
      exact (c.storage.mem_register id id).mpr (Or.inl rfl)
    · rcases step_registrations hstep (h.registered id k hk fun h => hphase (habort h))
        with hmem | ⟨k'', hk'', hend⟩
      · exact hmem
      · rw [hk'] at hk''
        obtain rfl := Option.some.inj hk''
        exact absurd hend hphase
  · rcases h.cameTo hstep hk' with ⟨gcReplica, -, rfl⟩ | ⟨k, hk, -, htaken, -⟩
    · cases hd
    · rcases htaken d hd with hbefore | rfl
      · rcases new_event hoperates hstep he with hold | ⟨-, k'', -, hk'', -, hnot, -⟩
        · exact h.taken e hold k d hk hbefore
        · rw [hk'] at hk''
          obtain rfl := Option.some.inj hk''
          exact absurd hd (hnot d)
      · exact hcounted e he k' hk'
  · have hold : (e.dot.nodeId, f) ∈ c.storage.finalDots → e.dot.counter ≤ f := fun hf => by
      rcases new_event hoperates hstep he with he | ⟨-, -, -, -, -, -, hnone⟩
      · exact h.stored e he f hf
      · exact absurd hf (hnone f)
    rcases step_finalDots hstep with hsame | ⟨x, k, d, hk, hput, hhistory, hst⟩
    · exact hold (hsame ▸ hf)
    · rw [hst] at hf
      rcases List.mem_insert_iff.mp hf with hnew | hf
      · obtain ⟨hnode, rfl⟩ := Prod.mk.inj hnew
        subst hnode
        exact h.taken e (hhistory ▸ he) k f hk hput
      · exact hold hf

omit [DecidableEq E] in
theorem departures_fixed (members : HashMap NodeId Bool) :
    Departures (fixed members : Cluster E) := by
  refine ⟨fun id s hs => ?_, fun id k hk _ => ?_, fun e he => ?_, fun e he => ?_, fun e he => ?_⟩
  · rw [fixed, AList.lookup_mapWithKey] at hs
    obtain ⟨gcReplica, -, rfl⟩ := Option.map_eq_some_iff.mp hs
    rfl
  · obtain ⟨gcReplica, hmember, -⟩ := core_fixed_cases hk
    exact (AList.mem_mapValues _ _ _).mpr (AList.mem_of_lookup hmember)
  all_goals cases he

/-! ## Who comes to serve, and which calls go on -/

theorem Departures.live_cases (h : Departures c) {l : Label E} (hl : joinsCounted c l = true)
    (hstep : c.step l = some c') (hlive : c'.Live id) : c.Live id ∨ c.adopts id l = true := by
  obtain ⟨k', hk', hserves, hphase⟩ := hlive
  rcases h.cameTo hstep hk' with ⟨gcReplica, -, rfl⟩ | ⟨k, hk, habort, -, hbefore⟩
  · exact absurd rfl (hserves .readEpochMetadata)
  · rcases hbefore hserves with hserves | ⟨pc, ok, rfl, hb⟩
    · exact Or.inl ⟨k, hk, hserves, fun h => hphase (habort h)⟩
    · right
      have htask : c.task id = some (.newReplicaBootstrap pc) :=
        by rw [task, hb.before, Option.map_some, hb.task]
      simp only [joinsCounted, htask, Bool.and_eq_true] at hl
      obtain ⟨rfl, -⟩ := hl
      cases hout : (pc.resume true k.replica c.storage).1 with
      | await pc' =>
        have hafter := hb.after
        rw [hk', hout] at hafter
        exact absurd (congrArg Core.task (Option.some.inj hafter)) (hserves pc')
      | returned result =>
        obtain ⟨rfl, -⟩ := resume_returned hout
        simp only [adopts, htask, true_and, decide_true]

theorem keepsLife_of_core {l : Label E} (hstep : c.step l = some c') {k : Core E id}
    (hk : c.core id = some k) :
    keepsLife id l = true := by
  cases l with
  | start x gcReplica =>
    obtain ⟨-, hnone, -⟩ := step_start hstep
    refine decide_eq_true ?_
    rintro rfl
    rw [hk] at hnone
    cases hnone
  | _ => rfl

theorem old_event {l : Label E} (hl : operatesInTime c l = true) (hstep : c.step l = some c')
    {p : NodeId} {f : Nat} (hp : (p, f) ∈ c.storage.finalDots) {e : Performed E}
    (he : e ∈ c'.history) (hnode : e.dot.nodeId = p) :
    e ∈ c.history := by
  rcases new_event hl hstep he with hold | ⟨-, -, -, -, -, -, hnone⟩
  · exact hold
  · rw [hnode] at hnone
    exact absurd hp (hnone f)

omit [DecidableEq E] in
theorem live_of_writer {l : Label E} (hl : writesInTime c l = true)
    (hwriter : c.writer l = some id) : c.Live id := by
  cases l with
  | resume x ok =>
    cases ok with
    | false => cases hwriter
    | true =>
      cases hk : c.core x with
      | none => simp [writer, task, hk] at hwriter
      | some k =>
        simp only [writer, task, hk, Option.map_some] at hwriter
        split at hwriter
        · next s m htask =>
          obtain rfl := Option.some.inj hwriter
          have htask : k.task = .initiateGc (.writeEpochState s m) := Option.some.inj htask
          simp only [writesInTime, hk, htask, decide_eq_true_eq] at hl
          exact ⟨k, hk, serves_of_initiateGc htask, hl⟩
        · cases hwriter
  | _ => cases hwriter

omit [DecidableEq E] in
theorem countsOn_of_adopts {l : Label E} (hl : joinsCounted c l = true) {q : NodeId}
    (hadopts : c.adopts q l = true) {k : Core E id} (hk : c.core id = some k) :
    k.task.countsOn q = true := by
  cases l with
  | resume x ok =>
    have hadopts' := hadopts
    rw [adopts] at hadopts'
    split at hadopts'
    · next e htask =>
      obtain ⟨rfl, -, -⟩ := of_decide_eq_true hadopts'
      simp only [joinsCounted, htask, hadopts, Bool.not_true, Bool.false_or, Bool.and_eq_true,
        List.all_eq_true] at hl
      obtain ⟨s, hs, rfl⟩ := mem_entries_of_core hk
      exact hl.2 _ hs
    · cases hadopts'
  | _ => cases hadopts

theorem call_cases {l : Label E} (hstep : c.step l = some c') {k' : Core E id} {pc' : InitiateGc E}
    (hk' : c'.core id = some k') (htask : k'.task = .initiateGc pc') :
    pc' = .readEpochMetadata ∨ (∃ k, c.core id = some k ∧ k.task = .initiateGc pc') ∨
      ∃ ok k pc, l = .resume id ok ∧ Initiated c c' id k pc ok ∧
        (pc.resume ok k.replica c.storage).1 = .await pc' := by
  rcases step_gc_cases hstep with hno | ⟨x, ok, rfl, hframe, ⟨k, pc, hb⟩ | ⟨k, pc, hi⟩⟩
  · exact (hno.sameCalls.calls id k' pc' hk' htask).imp_right Or.inl
  · exact ((hb.sameCalls hframe).calls id k' pc' hk' htask).imp_right Or.inl
  · by_cases hx : id = x
    · subst hx
      exact Or.inr (Or.inr ⟨ok, k, pc, rfl, hi, hi.await_of_task hk' htask⟩)
    · rw [hframe.others id hx] at hk'
      exact Or.inr (Or.inl ⟨k', hk', htask⟩)

theorem metadata_cases {l : Label E} (hstep : c.step l = some c') :
    c'.storage.readEpochMetadata = c.storage.readEpochMetadata ∨
      ∃ x k, l = .resume x true ∧ c.core x = some k ∧
        k.task = .initiateGc (.writeEpochMetadata c'.storage.readEpochMetadata) := by
  rcases step_gc_cases hstep with hno | ⟨x, ok, rfl, -, ⟨k, pc, hb⟩ | ⟨k, pc, hi⟩⟩
  · exact Or.inl (by rw [Storage.readEpochMetadata, hno.epochMetadata, Storage.readEpochMetadata])
  · exact Or.inl (by rw [hb.storage])
  · rcases resume_commits pc ok k.replica c.storage with ⟨-, heq⟩ | ⟨m, rfl, hcommit, heq⟩
    · exact Or.inl (by rw [hi.storage, heq])
    · cases ok with
      | false => cases hcommit
      | true =>
        refine Or.inr ⟨x, k, rfl, hi.before, ?_⟩
        rw [hi.task, hi.storage, heq]

omit [DecidableEq E] in
theorem resume_written {pc : InitiateGc E} {ok : Bool} {r : Replica E id} {st : Storage E}
    {m : EpochMetadata} (hout : (pc.resume ok r st).1 = .await (.writeEpochMetadata m)) :
    ok = true ∧ ∃ s, pc = .writeEpochState s m := by
  cases ok with
  | false =>
    obtain ⟨result, hfailed⟩ := pc.resume_failed r st
    rw [hfailed] at hout
    cases hout
  | true =>
    cases pc with
    | writeEpochState s m' =>
      cases hout
      exact ⟨rfl, s, rfl⟩
    | claimGcIntent n v m0 =>
      rcases InitiateGc.resume_claim r st n v m0 with ⟨-, result, heq⟩ | ⟨-, heq⟩
        <;> rw [heq] at hout <;>
        cases hout
    | liveMembersAgain n v m0 =>
      rcases InitiateGc.resume_again r st n v m0 with heq | heq <;> rw [heq] at hout <;> cases hout
    | readFinalDots n v m1 =>
      simp only [InitiateGc.resume, if_true, InitiateGc.afterFinalDots] at hout
      split at hout <;> cases hout
    | _ => simp [InitiateGc.resume] at hout

omit [DecidableEq E] in
theorem obsolete_of_afterFinalDots {r : Replica E id} {n : Nat} {previousVStable : CausalContext}
    {m1 : List NodeId} {finalDots : HashMap NodeId Nat} {m : EpochMetadata}
    (hm : (InitiateGc.afterFinalDots r n previousVStable m1 finalDots).1.metadata = some m) :
    m.obsoleteDots = (r.gc.computeStableTimestamp id m1 finalDots r.dvv.effectiveMap).2 := by
  rw [InitiateGc.afterFinalDots] at hm
  split at hm
  · cases hm
  · cases hm
    rfl

end Cluster

theorem Storage.mem_finalDots_of_lookup {st : Storage E} {p : NodeId} {f : Nat}
    (h : st.readFinalDots.lookup p = some f) : (p, f) ∈ st.finalDots := by
  rcases AList.lookup_foldl_insert_some h with hmem | hempty
  · obtain ⟨obj, hobj, hparse⟩ := List.mem_filterMap.mp hmem
    rw [List.mem_insertionSort] at hobj
    rw [parseFinalDotKey] at hparse
    split at hparse
    · cases hparse
    · cases hparse
      exact hobj
  · rw [AList.lookup_empty] at hempty
    cases hempty

namespace Watched

/-! ## What is known of obsolete nodes -/

/-- Every live replica has seen every event of `p`. -/
def SeenByAll (w : Watched E) (p : NodeId) : Prop := ∀ q, w.cluster.Live q → w.HasSeen q p

/-- `p` has left its final dot, and every live replica has seen its events. -/
def LetGo (w : Watched E) (p : NodeId) : Prop :=
  (∃ f, (p, f) ∈ w.cluster.storage.finalDots) ∧ w.SeenByAll p

/-- The writer of the stored epoch state had seen every event of `p`. -/
def InSnapshot (w : Watched E) (p : NodeId) : Prop :=
  ∀ e ∈ w.cluster.history, e.dot.nodeId = p → e.dot.counter ≤ w.snapshot p

/-- The obsolete nodes of an epoch from its frontier to its observation. -/
structure Pipeline (w : Watched E) : Prop where
  listed : ∀ i k n previousVStable m1, w.cluster.core i = some k →
    k.task = .initiateGc (.readFinalDots n previousVStable m1) → ∀ q, w.cluster.Live q → q ∈ m1
  declared : ∀ i k pc m, w.cluster.core i = some k → k.task = .initiateGc pc →
    pc.metadata = some m →
    ∀ p ∈ m.obsoleteDots, w.LetGo p
  written : ∀ i k m, w.cluster.core i = some k → k.task = .initiateGc (.writeEpochMetadata m) →
    ∀ p ∈ m.obsoleteDots, w.InSnapshot p
  stored : ∀ p ∈ w.cluster.storage.readEpochMetadata.obsoleteDots, w.LetGo p ∧ w.InSnapshot p

/-- The invariant of the runs of `ForgetGuard`. -/
structure Knowing (w : Watched E) : Prop where
  remembers : w.Remembers
  departures : w.cluster.Departures
  pipeline : w.Pipeline

variable {w w' : Watched E} {p q : NodeId}

/-- **A fully known node has been seen** by all that were listed. -/
theorem letGo_of_fullyKnown (h : w.Remembers) (hdepartures : w.cluster.Departures) {k : Core E id}
    (hk : w.cluster.core id = some k) {m1 : List NodeId} (hlisted : ∀ q, w.cluster.Live q → q ∈ m1)
    (hknown : k.replica.gc.FullyKnown id m1 w.cluster.storage.readFinalDots
      k.replica.dvv.effectiveMap p) :
    w.LetGo p := by
  obtain ⟨-, f, hf, hrows⟩ := hknown
  have hstored := Storage.mem_finalDots_of_lookup hf
  refine ⟨⟨f, hstored⟩, fun q hlive e he hnode => ?_⟩
  subst hnode
  refine (hdepartures.stored e he f hstored).trans ((hrows q (hlisted q hlive)).trans ?_)
  rw [GcCoordinator.rowOf]
  split
  · next hq =>
    subst hq
    rw [DotVersionVector.counterAt_effectiveMap, ← Cluster.counter_of_core hk]
    exact h.own q _
  · cases hmc : k.replica.gc.matrixClock with
    | none => exact Nat.zero_le _
    | some mc =>
      rw [Option.getD_some]
      cases hrow : mc.lookup q with
      | none => exact Nat.zero_le _
      | some ctx => exact h.rows id q k hk mc hmc ctx hrow _

variable [DecidableEq E] {l : Label E}

theorem LetGo.step (h : w.LetGo p) (hdepartures : w.cluster.Departures)
    (hl : Cluster.ForgetGuard w.cluster l) (hstep : w.step l = some w')
    (hadopts : ∀ q, w.cluster.adopts q l = true → w.InSnapshot p) :
    w'.LetGo p := by
  obtain ⟨⟨f, hf⟩, hseen⟩ := h
  have hcluster := cluster_step hstep
  refine ⟨⟨f, (Cluster.step_stays hcluster).1 _ hf⟩, fun q hlive e he hnode => ?_⟩
  have hold := Cluster.old_event hl.1.2 hcluster hf he hnode
  rcases hdepartures.live_cases hl.2.1.1 hcluster hlive with hbefore | hadopt
  · have hlife : Cluster.keepsLife q l = true := by
      obtain ⟨k, hk, -⟩ := hbefore
      exact Cluster.keepsLife_of_core hcluster hk
    exact (hseen q hbefore e hold hnode).trans (seen_le_step hstep hlife p)
  · exact (hadopts q hadopt e hold hnode).trans (snapshot_le_step hstep hadopt p)

theorem InSnapshot.step (h : w.InSnapshot p) (hletGo : w.LetGo p)
    (hl : Cluster.ForgetGuard w.cluster l) (hstep : w.step l = some w') : w'.InSnapshot p := by
  obtain ⟨⟨f, hf⟩, hseen⟩ := hletGo
  intro e he hnode
  have hold := Cluster.old_event hl.1.2 (cluster_step hstep) hf he hnode
  rw [snapshot_step hstep]
  cases hwriter : w.cluster.writer l with
  | none => exact h e hold hnode
  | some i => exact hseen i (Cluster.live_of_writer hl.2.1.2 hwriter) e hold hnode

omit [DecidableEq E] in
theorem Knowing.inSnapshot_of_adopts (h : w.Knowing) (hl : Cluster.ForgetGuard w.cluster l)
    (hadopts : w.cluster.adopts q l = true) {k : Core E id} {pc : InitiateGc E} {m : EpochMetadata}
    (hk : w.cluster.core id = some k) (htask : k.task = .initiateGc pc) (hm : pc.metadata = some m)
    (hp : p ∈ m.obsoleteDots) : w.InSnapshot p := by
  have hcounts := Cluster.countsOn_of_adopts hl.2.1.1 hadopts hk
  cases pc with
  | writeEpochState s m' =>
    cases hm
    rw [htask, EngineTask.countsOn, List.isEmpty_iff] at hcounts
    rw [AList.mem_keys, hcounts] at hp
    cases hp
  | writeEpochMetadata m' =>
    cases hm
    exact h.pipeline.written id k m hk htask p hp
  | _ => cases hm

omit [DecidableEq E] in
/-- **A frontier declares only nodes obsolete that all have seen.** -/
theorem Knowing.classified (h : w.Knowing) {n : Nat} {previousVStable : CausalContext}
    {m1 : List NodeId} {k : Core E id}
    (hl : Cluster.classifiesRecorded w.cluster (.resume id true) = true)
    (hk : w.cluster.core id = some k)
    (htask : k.task = .initiateGc (.readFinalDots n previousVStable m1))
    (hp : p ∈ (k.replica.gc.computeStableTimestamp id m1 w.cluster.storage.readFinalDots
      k.replica.dvv.effectiveMap).2) : w.LetGo p := by
  refine letGo_of_fullyKnown h.remembers h.departures hk
    (h.pipeline.listed id k n previousVStable m1 hk htask) ?_
  refine (k.replica.gc.obsolete_fully_known_iff id m1 _ _).mpr
    (fun mc hmc hrows r hr hnot hnone => ?_) p hp
  simp only [Cluster.classifiesRecorded, hk, htask, hmc, Bool.not_true,
    Bool.false_or, Option.all_some, hrows,
    decide_true, List.all_eq_true, Bool.or_eq_true, decide_eq_true_eq] at hl
  rcases hl r (AList.mem_keys.mp hr) with (hmem | hmem) | hmentioned
  · exact absurd hmem hnot
  · exact absurd hmem hnone
  · exact hmentioned

omit [DecidableEq E] in
theorem not_adopts_of_initiated {ok : Bool} {k : Core E id} {pc : InitiateGc E}
    (hk : w.cluster.core id = some k) (htask : k.task = .initiateGc pc) :
    ¬ w.cluster.adopts q (.resume id ok) = true := by
  intro hadopts
  simp only [Cluster.adopts, Cluster.task, hk, Option.map_some, htask] at hadopts
  cases hadopts

section step

variable (h : w.Knowing) (hl : Cluster.ForgetGuard w.cluster l) (hstep : w.step l = some w')
include h hl hstep

theorem Knowing.letGo_step {k : Core E id} {pc : InitiateGc E} {m : EpochMetadata}
    (hk : w.cluster.core id = some k) (htask : k.task = .initiateGc pc) (hm : pc.metadata = some m)
    (hp : p ∈ m.obsoleteDots) : w'.LetGo p :=
  (h.pipeline.declared id k pc m hk htask hm p hp).step h.departures hl hstep
    fun _ hadopts => h.inSnapshot_of_adopts hl hadopts hk htask hm hp

/-- All that are live when a call reads the final dots were listed, or have joined since. -/
theorem Knowing.listed_step {k' : Core E id} {n : Nat} {previousVStable : CausalContext}
    {m1 : List NodeId} (hk' : w'.cluster.core id = some k')
    (htask : k'.task = .initiateGc (.readFinalDots n previousVStable m1))
    (hlive : w'.cluster.Live q) : q ∈ m1 := by
  have hcluster := cluster_step hstep
  rcases Cluster.call_cases hcluster hk' htask
    with hnew | ⟨k, hk, htask⟩ | ⟨ok, k, pc, rfl, hi, hout⟩
  · cases hnew
  · rcases h.departures.live_cases hl.2.1.1 hcluster hlive with hbefore | hadopts
    · exact h.pipeline.listed id k n previousVStable m1 hk htask q hbefore
    · have hcounts := Cluster.countsOn_of_adopts hl.2.1.1 hadopts hk
      rw [htask] at hcounts
      exact of_decide_eq_true hcounts
  · -- the listing is that of the registered replicas
    obtain ⟨rfl, rfl, m0, rfl⟩ := Cluster.second_listing hout
    rcases h.departures.live_cases hl.2.1.1 hcluster hlive with ⟨kq, hkq, -, hphase⟩ | hadopts
    · exact (w.cluster.storage.mem_liveMembers q).mpr (h.departures.registered q kq hkq hphase)
    · exact absurd hadopts (not_adopts_of_initiated hi.before hi.task)

theorem Knowing.declared_step {k' : Core E id} {pc' : InitiateGc E} {m : EpochMetadata}
    (hk' : w'.cluster.core id = some k') (htask : k'.task = .initiateGc pc')
    (hm : pc'.metadata = some m) (hp : p ∈ m.obsoleteDots) : w'.LetGo p := by
  rcases Cluster.call_cases (cluster_step hstep) hk' htask
    with rfl | ⟨k, hk, htask⟩ | ⟨ok, k, pc, rfl, hi, hout⟩
  · cases hm
  · exact h.letGo_step hl hstep hk htask hm hp
  · suffices hbefore : w.LetGo p from hbefore.step h.departures hl hstep fun q hadopts =>
      absurd hadopts (not_adopts_of_initiated hi.before hi.task)
    refine (Cluster.resume_metadata (P := fun m => ∀ p ∈ m.obsoleteDots, w.LetGo p) ok k.replica
      (fun p hp => (h.pipeline.stored p hp).1) (h.pipeline.declared id k pc · hi.before hi.task)
      fun n v m1 m hpc hm p hp => ?_).2 pc' m hout hm p hp
    subst hpc
    cases ok with
    | false =>
      obtain ⟨result, hfailed⟩ :=
        (InitiateGc.readFinalDots n v m1).resume_failed k.replica w.cluster.storage
      rw [hfailed] at hout
      cases hout
    | true =>
      rw [Cluster.obsolete_of_afterFinalDots hm] at hp
      exact h.classified hl.2.2 hi.before hi.task hp

theorem Knowing.written_step {k' : Core E id} {m : EpochMetadata}
    (hk' : w'.cluster.core id = some k') (htask : k'.task = .initiateGc (.writeEpochMetadata m))
    (hp : p ∈ m.obsoleteDots) : w'.InSnapshot p := by
  have hcluster := cluster_step hstep
  rcases Cluster.call_cases hcluster hk' htask
    with hnew | ⟨k, hk, htask⟩ | ⟨ok, k, pc, rfl, hi, hout⟩
  · cases hnew
  · exact (h.pipeline.written id k m hk htask p hp).step
      (h.pipeline.declared id k _ m hk htask rfl p hp) hl hstep
  · -- the new epoch state is that of a replica that has seen them
    obtain ⟨rfl, s, rfl⟩ := Cluster.resume_written hout
    obtain ⟨⟨f, hf⟩, hseen⟩ := h.pipeline.declared id k _ m hi.before hi.task rfl p hp
    have hwriter : w.cluster.writer (.resume id true) = some id := by
      simp only [Cluster.writer, Cluster.task, hi.before, Option.map_some, hi.task]
    intro e he hnode
    rw [snapshot_step hstep, hwriter]
    exact hseen id (Cluster.live_of_writer hl.2.1.2 hwriter) e
      (Cluster.old_event hl.1.2 hcluster hf he hnode) hnode

theorem Knowing.stored_step (hp : p ∈ w'.cluster.storage.readEpochMetadata.obsoleteDots) :
    w'.LetGo p ∧ w'.InSnapshot p := by
  rcases Cluster.metadata_cases (cluster_step hstep) with hsame | ⟨i, k, rfl, hk, htask⟩
  · rw [hsame] at hp
    obtain ⟨hbefore, hsnapshot⟩ := h.pipeline.stored p hp
    exact ⟨hbefore.step h.departures hl hstep fun _ _ => hsnapshot,
      hsnapshot.step hbefore hl hstep⟩
  · exact ⟨h.letGo_step hl hstep hk htask rfl hp, (h.pipeline.written i k _ hk htask p hp).step
      (h.pipeline.declared i k _ _ hk htask rfl p hp) hl hstep⟩

/-- **The step lemma.** -/
theorem Knowing.step : w'.Knowing := by
  refine ⟨h.remembers.step hstep fun x hx => ?_, h.departures.step hl (cluster_step hstep),
    fun i k' n v m1 hk' htask q hlive => h.listed_step hl hstep hk' htask hlive,
    fun i k' pc' m hk' htask hm p hp => h.declared_step hl hstep hk' htask hm hp,
    fun i k' m hk' htask p hp => h.written_step hl hstep hk' htask hp,
    fun p hp => h.stored_step hl hstep hp⟩
  cases l with
  | start y gcReplica =>
    obtain rfl : y = x := by simpa [Cluster.keepsLife] using hx
    exact hl.1.1
  | _ => cases hx

end step

omit [DecidableEq E] in
theorem knowing_fixed (members : HashMap NodeId Bool) : (fixed members : Watched E).Knowing := by
  refine ⟨remembers_fixed members, Cluster.departures_fixed members,
    fun i k n v m1 hk htask => ?_, fun i k pc m hk htask => ?_, fun i k m hk htask => ?_,
    fun p hp => absurd hp (AList.notMem_empty p)⟩
  all_goals
    obtain ⟨gcReplica, -, rfl⟩ := Cluster.core_fixed_cases hk
    cases htask

theorem knowing_of_reachable {members : HashMap NodeId Bool}
    (h : Reachable step (fun w l => Cluster.ForgetGuard w.cluster l) (fixed members) w) :
    w.Knowing :=
  h.invariant (knowing_fixed members) fun _ _ _ _ hw hl hstep => hw.step hl hstep

omit [DecidableEq E] in
theorem Knowing.seenByAll (h : w.Knowing) (hl : Cluster.ForgetGuard w.cluster l)
    (hlearns : Cluster.learnsObsolete id p w.cluster l = true) : w.SeenByAll p := by
  cases l with
  | handle x choice =>
    simp only [Cluster.learnsObsolete] at hlearns
    split at hlearns
    · obtain ⟨-, -, hp⟩ := of_decide_eq_true hlearns
      exact (h.pipeline.stored p hp).1.2
    · cases hlearns
  | resume x ok =>
    simp only [Cluster.learnsObsolete] at hlearns
    split at hlearns
    · next k hk =>
      split at hlearns
      · next n v m1 htask =>
        split at hlearns
        · next s m hout =>
          obtain ⟨-, rfl, hp⟩ := of_decide_eq_true hlearns
          have hm : (InitiateGc.afterFinalDots k.replica n v m1
              w.cluster.storage.readFinalDots).1.metadata =
              some m := by
            rw [hout]
            rfl
          rw [Cluster.obsolete_of_afterFinalDots hm] at hp
          exact (h.classified hl.2.2 hk htask hp).2
        · cases hlearns
      · cases hlearns
    · cases hlearns
  | _ => cases hlearns

end Watched

namespace Cluster

variable [DecidableEq E] {c c' : Cluster E} {p : NodeId}

/-- **Nothing is forgotten otherwise**: the counter of a node goes down only on a replica that
learns that the node is obsolete. -/
theorem learnsObsolete_of_lt {l : Label E} (hstep : c.step l = some c') {k k' : Core E id}
    (hk : c.core id = some k) (hk' : c'.core id = some k')
    (hlt : k'.replica.dvv.effectiveCounter p < k.replica.dvv.effectiveCounter p) :
    learnsObsolete id p c l = true := by
  rw [← Bool.not_eq_false]
  intro hnot
  refine absurd hlt (Nat.not_lt.mpr ?_)
  cases step_core hstep id with
  | same hsame =>
    obtain rfl := Option.some.inj (hk'.symm.trans (hsame.trans hk))
    exact Nat.le_refl _
  | @handled choice s req hh =>
    obtain rfl := Option.some.inj (hk.symm.trans hh.before)
    obtain rfl := Option.some.inj (hk'.symm.trans hh.after)
    refine effectiveCounter_le_handle s (fun hreq hbehind hp => ?_) choice
    have hnext := hh.next
    rw [hreq] at hnext
    simp only [learnsObsolete, hh.before, hnext, true_and, decide_eq_false_iff_not] at hnot
    exact hnot ⟨hbehind, hp⟩
  | @bootstrapped ok k₀ pc hb =>
    obtain rfl := Option.some.inj (hk.symm.trans hb.before)
    obtain rfl := Option.some.inj (hk'.symm.trans hb.after)
    exact (resume_bootstrap_keeps pc ok k.replica c.storage).2 p
  | @initiated ok k₀ pc hi =>
    obtain rfl := Option.some.inj (hk.symm.trans hi.before)
    obtain rfl := Option.some.inj (hk'.symm.trans hi.after)
    rcases resume_replica_cases pc ok k.replica c.storage
      with ⟨n, v, m1, rfl, rfl, -, hr⟩ | ⟨hr | ⟨e, hr⟩, -⟩
    · simp only [learnsObsolete, hk, hi.task, true_and] at hnot
      simp only [hr, InitiateGc.afterFinalDots] at hnot ⊢
      split
      · exact Nat.le_refl _
      · next hprogress =>
        simp only [if_neg hprogress, decide_eq_false_iff_not] at hnot
        exact (k.replica.effectiveCounter_forgetNodes _ hnot).ge
    · simp only [hr]
      exact Nat.le_refl _
    · simp only [hr]
      exact Nat.le_refl _
  | started hnone hafter =>
    rw [hk] at hnone
    cases hnone
  | shutdown hbefore hafter =>
    obtain rfl := Option.some.inj (hk.symm.trans hbefore)
    obtain rfl := Option.some.inj (hk'.symm.trans hafter)
    exact Nat.le_refl _
  | gone hbefore hend hafter =>
    rw [hk'] at hafter
    cases hafter

/-! ## Runs -/

/-- `G` and `H` learn of the event of `P`, and `H` tells `G`; `H` and `P` depart, and `H` starts
again, from a bucket without epochs. -/
def restartedH : List (Label String) :=
  [.connect "G" "H" true, .connect "G" "P" false, .connect "H" "G" true, .connect "H" "P" false,
    .connect "P" "G" true, .connect "P" "H" true] ++ operate "P" ++ pull "G" "P" 0 ++
      pull "H" "P" 0 ++
  advertise "H" "G" 0 ++ depart "H" ++ depart "P" ++ [.start "H" true] ++
  List.replicate 3 (.resume "H" true) ++ initiate "G" 4

/-- The guard, but for the starts of `H`; and every storage call succeeds. -/
def RestartGuard (c : Cluster String) (l : Label String) : Prop :=
  l.succeeds = true ∧ (startsAfresh c l = true ∨ keepsLife "H" l = false) ∧
    operatesInTime c l = true ∧
    (joinsCounted c l = true ∧ writesInTime c l = true) ∧ classifiesRecorded c l = true

instance (c : Cluster String) (l : Label String) : Decidable (RestartGuard c l) :=
  inferInstanceAs (Decidable (_ ∧ _))

/-- The old row of `H` makes `G` forget `P`, whose event the new `H` has not seen. -/
theorem restarted_replica_has_not_seen :
    ∃ w : Watched String,
      Reachable Watched.step (fun w l => RestartGuard w.cluster l)
        (.fixed (AList.ofPairs [("G", true), ("H", true), ("P", false)])) w ∧
      learnsObsolete "G" "P" w.cluster (.resume "G" true) = true ∧ w.cluster.Live "H" ∧
      ¬ w.HasSeen "H" "P" := by
  have hrun : (replay Watched.step (fun w l => RestartGuard w.cluster l)
      (.fixed (AList.ofPairs [("G", true), ("H", true), ("P", false)])) restartedH).map (fun w =>
        (learnsObsolete "G" "P" w.cluster (.resume "G" true) && w.cluster.idle "H" &&
            decide ((w.cluster.core "H").map Core.shutdown = some .running) &&
            decide (⟨"P", 1⟩ ∈ w.cluster.history.map (·.dot)), w.seen "H" "P")) =
                some (true, 0) := by
    decide +kernel
  obtain ⟨w, hw, hchecks⟩ := Option.map_eq_some_iff.mp hrun
  simp only [Prod.mk.injEq, Bool.and_eq_true, decide_eq_true_eq] at hchecks
  obtain ⟨⟨⟨⟨hlearns, hidle⟩, hrunning⟩, hevent⟩, hunseen⟩ := hchecks
  obtain ⟨k, hk, hserves⟩ := serves_of_idle hidle
  refine ⟨w, reachable_of_replay _ .start hw, hlearns, ⟨k, hk, hserves, fun habort => ?_⟩,
    fun hseen => ?_⟩
  · rw [hk, Option.map_some, habort] at hrunning
    cases hrunning
  · obtain ⟨e, he, hdot⟩ := List.mem_map.mp hevent
    have hle := hseen e he (by rw [hdot])
    rw [hdot, hunseen] at hle
    exact Nat.not_succ_le_zero 0 hle

end Cluster

end ExperimentalCrdt
