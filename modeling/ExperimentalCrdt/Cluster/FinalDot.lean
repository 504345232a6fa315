import ExperimentalCrdt.Cluster.Servers

/-!
# Whether the final dot is final

`handle_shutdown` asks the engine for its counter, stores it as the final dot of the node, deletes
the registration, and only then stops the engine. The engine goes on with its queue in between, and
a client operation that it works off after its answer mints a counter beyond the final dot
(`operation_above_the_final_dot`). Nothing else goes wrong: whatever is queued or arrives, the final
dot covers everything the engine mints exactly if it works off no client operation after its answer
(`final_dot_is_final_iff`).

The answer is found by the requests in the queue (`Server.Asked`): one shutdown puts one request for
it.
-/

namespace ExperimentalCrdt

open Transition (Reachable replay reachable_of_replay)

variable {E : Type} {id : NodeId}

/-- The answer is asked for once, while the shutdown waits for it. -/
def Server.Asked (s : Server E id) : Prop :=
  s.engine.rx.countP CrdtEngineRequest.isDeregistrationState =
    if s.shutdown = .awaitFinalDot then 1 else 0

/-- The answer was `finalDot`, and it is not asked for again. -/
def Server.Answered (s : Server E id) (finalDot : Nat) : Prop :=
  s.engine.rx.countP CrdtEngineRequest.isDeregistrationState = 0 ∧
    (s.shutdown = .putFinalDot finalDot ∨ s.shutdown = .deleteRegistration ∨ s.shutdown = .abort)

section moves

variable {s s' : Server E id}

theorem Server.Asked.move (h : s.Asked) (hmove : QueueMove s s') : s'.Asked := by
  unfold Server.Asked at h ⊢
  cases hmove with
  | enqueued reqs hreqs hrx hphase =>
    rw [hrx, List.countP_append, hreqs, hphase]
    exact h
  | handled req hreq hrx hphase =>
    rw [hrx, List.countP_cons_of_neg (by simp [hreq])] at h
    rw [hphase]
    exact h
  | asked hrunning hrx hphase =>
    rw [hrunning, if_neg (by simp)] at h
    rw [hrx, List.countP_append, h, hphase]
    rfl
  | answered hrx hphase =>
    rw [hrx, List.countP_cons_of_pos rfl] at h
    rw [hphase, if_neg (by simp)]
    split at h
    · omega
    · omega
  | proceeded hbefore hrx hphase =>
    rw [if_neg hbefore.2] at h
    rw [hrx, h, if_neg (by rcases hphase with hphase | hphase <;> simp [hphase])]

theorem Server.Asked.answer (h : s.Asked) {rest : List (CrdtEngineRequest E)}
    (hrx : s.engine.rx = .deregistrationState :: rest) :
    rest.countP CrdtEngineRequest.isDeregistrationState = 0 := by
  unfold Server.Asked at h
  rw [hrx, List.countP_cons_of_pos rfl] at h
  split at h
  · omega
  · omega

theorem Server.Answered.move {finalDot : Nat} (h : s.Answered finalDot) (hmove : QueueMove s s') :
    s'.Answered finalDot := by
  obtain ⟨hcount, hphases⟩ := h
  cases hmove with
  | enqueued reqs hreqs hrx hphase =>
    refine ⟨?_, by rw [hphase]; exact hphases⟩
    rw [hrx, List.countP_append, hreqs, hcount]
  | handled req hreq hrx hphase =>
    rw [hrx, List.countP_cons_of_neg (by simp [hreq])] at hcount
    exact ⟨hcount, by rw [hphase]; exact hphases⟩
  | asked hrunning hrx hphase => simp [hrunning] at hphases
  | answered hrx hphase =>
    rw [hrx, List.countP_cons_of_pos rfl] at hcount
    omega
  | proceeded hbefore hrx hphase =>
    rw [← hrx] at hcount
    exact ⟨hcount, Or.inr hphase⟩

end moves

namespace Cluster

/-- No server starts under this id. -/
def keepsLife (id : NodeId) : Label E → Bool
  | .start x _ => decide (x ≠ id)
  | _ => true

/-- A life of `id` begins: its server has just been started, or is one of those that serve from the
start. -/
def Begun (c : Cluster E) (id : NodeId) : Prop :=
  ∃ gcReplica, c.nodes.lookup id = some (.new gcReplica) ∨
    c.nodes.lookup id = some (.serving gcReplica)

/-- What `id` has minted from `c` to `c'`. -/
def minted (c c' : Cluster E) (id : NodeId) : List (Performed E) :=
  (c'.history.drop c.history.length).filter fun p => p.dot.nodeId = id

variable {c c' : Cluster E} [DecidableEq E]

theorem step_queueMove {l : Label E} (hl : keepsLife id l = true) (hstep : c.step l = some c')
    {s' : Server E id} (hs' : c'.nodes.lookup id = some s') :
    ∃ s, c.nodes.lookup id = some s ∧ QueueMove s s' := by
  rcases step_server hstep hs' with ⟨s, hs, hmove⟩ | ⟨gcReplica, rfl, -⟩
  · exact ⟨s, hs, hmove.queue⟩
  · exact absurd rfl (of_decide_eq_true hl)

/-! ## What is minted -/

theorem history_grows {l : Label E} (hstep : c.step l = some c') : c.history <+: c'.history := by
  rcases step_history hstep with heq | ⟨x, choice, s, op, -, hh⟩
  · simp [heq]
  · rw [hh.history]
    exact List.prefix_append _ _

omit [DecidableEq E] in
theorem minted_self : minted c c id = [] := by
  simp [minted]

omit [DecidableEq E] in
theorem minted_append {c₁ c₂ : Cluster E} (h₁ : c₁.history <+: c₂.history)
    (h₂ : c₂.history <+: c.history) :
    minted c₁ c id = minted c₁ c₂ id ++ minted c₂ c id := by
  obtain ⟨as, has⟩ := h₁
  obtain ⟨bs, hbs⟩ := h₂
  unfold minted
  rw [← hbs, ← has, List.append_assoc, List.drop_left, List.drop_left,
    List.filter_append, ← List.append_assoc,
    List.drop_left]

theorem minted_step {c₀ : Cluster E} {l : Label E} (hpre : c₀.history <+: c.history)
    (hstep : c.step l = some c') :
    minted c₀ c' id = minted c₀ c id ∨ ∃ choice s op,
      Handled c c' id choice s (.clientOperation op) ∧
      minted c₀ c' id =
        minted c₀ c id ++ [⟨s.engine.nextDot, op, s.engine.replica.dvv.effectiveMap⟩] := by
  rw [minted_append hpre (history_grows hstep)]
  rcases step_history hstep with heq | ⟨x, choice, s, op, -, hh⟩
  · left
    have hnone : minted c c' id = [] := by
      rw [minted, heq, List.drop_length]
      rfl
    rw [hnone, List.append_nil]
  · have hnew : minted c c' id = [⟨s.engine.nextDot, op, s.engine.replica.dvv.effectiveMap⟩].filter
        fun p => p.dot.nodeId = id := by
      rw [minted, hh.history, List.drop_left]
      rfl
    rw [hnew]
    by_cases hx : x = id
    · subst hx
      refine Or.inr ⟨choice, s, op, hh, ?_⟩
      simp only [List.filter_singleton, nextDot_eq, decide_true, cond_true]
    · left
      simp only [List.filter_singleton, nextDot_eq, hx, decide_false, cond_false, List.append_nil]

/-! ## Before and after the answer -/

/-- Since `c₁`, the counter of the server has kept up with what was minted. -/
structure Minting (c₁ : Cluster E) (id : NodeId) (c : Cluster E) : Prop where
  grown : c₁.history <+: c.history
  asked : ∀ s : Server E id, c.nodes.lookup id = some s → s.Asked
  covered : ∀ s : Server E id, c.nodes.lookup id = some s →
    ∀ p ∈ minted c₁ c id, p.dot.counter ≤ s.engine.replica.dvv.dot.counter

/-- Since the answer in `c₃`, everything minted lies above it. -/
structure Exceeding (c₃ : Cluster E) (id : NodeId) (finalDot : Nat) (c : Cluster E) : Prop where
  grown : c₃.history <+: c.history
  answered : ∀ s : Server E id, c.nodes.lookup id = some s → s.Answered finalDot
  reached : ∀ s : Server E id, c.nodes.lookup id = some s →
    finalDot ≤ s.engine.replica.dvv.dot.counter
  beyond : ∀ p ∈ minted c₃ c id, finalDot < p.dot.counter

theorem step_dotCounter {l : Label E} (hstep : c.step l = some c') {s s' : Server E id}
    (hs : c.nodes.lookup id = some s) (hs' : c'.nodes.lookup id = some s') :
    s.engine.replica.dvv.dot.counter ≤ s'.engine.replica.dvv.dot.counter := by
  have hcore' := c'.core_of_lookup hs'
  rcases (step_stays hstep).2 id s.core (c.core_of_lookup hs)
    with ⟨k', hk', hle⟩ | ⟨ok, -, -, hnone⟩
  · rw [hcore'] at hk'
    obtain rfl := Option.some.inj hk'
    exact hle
  · rw [hcore'] at hnone
    cases hnone

theorem Handled.minted_counter {choice : Option NodeId} {s s' : Server E id} {op : OrSetOp E}
    (hh : Handled c c' id choice s (.clientOperation op)) (hs' : c'.nodes.lookup id = some s') :
    s'.engine.replica.dvv.dot.counter = s.engine.nextDot.counter := by
  have hcore : c'.core id = some s'.core := c'.core_of_lookup hs'
  rw [hh.after] at hcore
  have hreplica := congrArg Core.replica (Option.some.inj hcore)
  show s'.core.replica.dvv.dot.counter = _
  rw [← hreplica]
  rfl

theorem Minting.step {c₁ : Cluster E} {l : Label E} (h : Minting c₁ id c)
    (hl : keepsLife id l = true) (hstep : c.step l = some c') : Minting c₁ id c' := by
  refine ⟨h.grown.trans (history_grows hstep), fun s' hs' => ?_, fun s' hs' p hp => ?_⟩
  · obtain ⟨s, hs, hmove⟩ := step_queueMove hl hstep hs'
    exact (h.asked s hs).move hmove
  · obtain ⟨s, hs, -⟩ := step_queueMove hl hstep hs'
    have hle := step_dotCounter hstep hs hs'
    rcases minted_step h.grown hstep with heq | ⟨choice, t, op, hh, heq⟩
    · rw [heq] at hp
      exact Nat.le_trans (h.covered s hs p hp) hle
    · rw [heq] at hp
      rcases List.mem_append.mp hp with hp | hp
      · exact Nat.le_trans (h.covered s hs p hp) hle
      · rw [List.mem_singleton] at hp
        rw [hp, hh.minted_counter hs']

theorem Exceeding.step {c₃ : Cluster E} {finalDot : Nat} {l : Label E}
    (h : Exceeding c₃ id finalDot c) (hl : keepsLife id l = true) (hstep : c.step l = some c') :
    Exceeding c₃ id finalDot c' := by
  refine ⟨h.grown.trans (history_grows hstep), fun s' hs' => ?_, fun s' hs' => ?_, fun p hp => ?_⟩
  · obtain ⟨s, hs, hmove⟩ := step_queueMove hl hstep hs'
    exact (h.answered s hs).move hmove
  · obtain ⟨s, hs, -⟩ := step_queueMove hl hstep hs'
    exact Nat.le_trans (h.reached s hs) (step_dotCounter hstep hs hs')
  · rcases minted_step h.grown hstep with heq | ⟨choice, t, op, hh, heq⟩
    · exact h.beyond p (heq ▸ hp)
    · rw [heq] at hp
      rcases List.mem_append.mp hp with hp | hp
      · exact h.beyond p hp
      · -- the operation counts on from a counter that has reached the answer
        rw [List.mem_singleton] at hp
        obtain ⟨s, hs, hcore⟩ := Option.map_eq_some_iff.mp hh.before
        have hreached := h.reached s hs
        have hreplica : s.engine.replica = t.engine.replica := congrArg Core.replica hcore
        rw [hreplica] at hreached
        rw [hp, nextDot_eq]
        exact Nat.lt_succ_of_le hreached

omit [DecidableEq E] in
theorem Begun.minting (h : Begun c id) : Minting c id c := by
  refine ⟨List.prefix_refl _, fun s hs => ?_, fun s hs p hp => ?_⟩
  · obtain ⟨gcReplica, hs' | hs'⟩ := h
    · rw [hs'] at hs
      cases hs
      rfl
    · rw [hs'] at hs
      cases hs
      rfl
  · rw [minted_self] at hp
    cases hp

/-- **The answer** is the counter that has kept up with everything minted so far. -/
theorem Minting.answer {c₁ : Cluster E} (h : Minting c₁ id c) {choice : Option NodeId}
    (hnext : c.nextRequest id = some .deregistrationState)
    (hstep : c.step (.handle id choice) = some c') :
    ∃ finalDot, (∀ p ∈ minted c₁ c' id, p.dot.counter ≤ finalDot) ∧
    Exceeding c' id finalDot c' := by
  obtain ⟨s, req, hh⟩ := step_handle hstep
  rw [hh.next] at hnext
  obtain rfl := Option.some.inj hnext
  obtain ⟨t, ht, hcore⟩ := Option.map_eq_some_iff.mp hh.before
  have hreplica : t.engine.replica = s.engine.replica := congrArg Core.replica hcore
  refine ⟨s.engine.finalDot, fun p hp => ?_, List.prefix_refl _, fun s' hs' => ?_, fun s' hs' => ?_,
    fun p hp => ?_⟩
  · have hsame : minted c₁ c' id = minted c₁ c id := by
      rw [minted, hh.history]
      exact congrArg _ (congrArg _ (List.append_nil _))
    rw [hsame] at hp
    have hle := h.covered t ht p hp
    rw [hreplica] at hle
    exact hle
  · obtain ⟨t', ht', hmove⟩ := step_queueMove rfl hstep hs'
    rw [ht] at ht'
    obtain rfl := Option.some.inj ht'
    have hcore' : c'.core id = some s'.core := c'.core_of_lookup hs'
    rw [hh.after] at hcore'
    have hphase : s'.shutdown = .putFinalDot s.engine.finalDot :=
      (congrArg Core.shutdown (Option.some.inj hcore')).symm
    refine ⟨?_, Or.inl hphase⟩
    have hasked := (h.asked t ht).move hmove
    unfold Server.Asked at hasked
    rw [hasked, hphase]
    rfl
  · have hcore' : c'.core id = some s'.core := c'.core_of_lookup hs'
    rw [hh.after] at hcore'
    have hreplica' : s'.engine.replica = s.engine.replica :=
      (congrArg Core.replica (Option.some.inj hcore')).symm
    rw [hreplica']
    exact Nat.le_refl _
  · rw [minted_self] at hp
    cases hp

/-! ## Runs -/

/-- **The final dot covers what the engine mints exactly if** it works off no client operation after
its answer: whatever else is queued or arrives, for every life of a node, from its begin in `c₁`
over the answer in `c₂` and the put in `c₄` to any later state `c`. -/
theorem final_dot_is_final_iff (c₁ c₂ c₃ c₄ c₅ c : Cluster E) (id : NodeId) (choice : Option NodeId)
    (k : Core E id) (finalDot : Nat) (hbegun : Begun c₁ id)
    (hserves : Reachable Cluster.step (fun _ l => keepsLife id l = true) c₁ c₂)
    (hasked : c₂.nextRequest id = some .deregistrationState)
    (hanswer : c₂.step (.handle id choice) = some c₃)
    (hmeanwhile : Reachable Cluster.step (fun _ l => keepsLife id l = true) c₃ c₄)
    (hk : c₄.core id = some k) (hphase : k.shutdown = .putFinalDot finalDot)
    (hput : c₄.step (.continueShutdown id true) = some c₅)
    (hafter : Reachable Cluster.step (fun _ l => keepsLife id l = true) c₅ c) :
    (id, finalDot) ∈ c.storage.finalDots ∧
      ((∀ p ∈ minted c₁ c id, p.dot.counter ≤ finalDot) ↔ minted c₃ c id = []) := by
  have hminting : Minting c₁ id c₂ :=
    hserves.invariant hbegun.minting fun s l s' _ hs hl hstep => hs.step hl hstep
  obtain ⟨answer, hcovered, hexceeding⟩ := hminting.answer hasked hanswer
  have hlater : Exceeding c₃ id answer c₄ :=
    hmeanwhile.invariant hexceeding fun s l s' _ hs hl hstep => hs.step hl hstep
  -- what is put is the answer
  obtain ⟨s, hs, rfl⟩ := Option.map_eq_some_iff.mp hk
  have hsame : answer = finalDot := by
    obtain ⟨-, hphases⟩ := hlater.answered s hs
    have hphase : s.shutdown = .putFinalDot finalDot := hphase
    rw [hphase] at hphases
    have heq : finalDot = answer := by simpa using hphases
    exact heq.symm
  subst hsame
  have hlast : Exceeding c₃ id answer c :=
    hafter.invariant (hlater.step rfl hput) fun s l s' _ hs hl hstep => hs.step hl hstep
  refine ⟨?_, ?_⟩
  · have hstored : (id, answer) ∈ c₅.storage.finalDots := by
      obtain ⟨-, -, k, hk', hcase⟩ := step_continueShutdown hput
      rw [hk] at hk'
      obtain rfl := Option.some.inj hk'
      rcases hcase with ⟨finalDot, hphase', hcase⟩ | ⟨hphase', -⟩ | ⟨hphase', -⟩
      · rw [hphase] at hphase'
        cases hphase'
        rw [if_pos rfl] at hcase
        rw [hcase.2]
        exact List.mem_insert_self
      · rw [hphase] at hphase'
        cases hphase'
      · rw [hphase] at hphase'
        cases hphase'
    exact hafter.invariant (P := fun s => (id, answer) ∈ s.storage.finalDots) hstored
      fun s l s' _ hs _ hstep => (step_stays hstep).1 _ hs
  · have hgrown : c₁.history <+: c₃.history := hminting.grown.trans (history_grows hanswer)
    rw [minted_append hgrown hlast.grown]
    constructor
    · intro hall
      rw [List.eq_nil_iff_forall_not_mem]
      intro p hp
      have hle := hall p (List.mem_append_right _ hp)
      have hlt := hlast.beyond p hp
      omega
    · intro hnone p hp
      rw [hnone, List.append_nil] at hp
      exact hcovered p hp

/-- `G` mints a dot, and departs with it as its final dot. -/
theorem final_dot_is_final_iff_departed :
    ∃ c₂ c₃ c₅ c, replay Cluster.step (fun _ l => keepsLife "G" l = true) gcPair
        (operate "G" ++ [.beginShutdown "G"]) = some c₂ ∧
      c₂.step (.handle "G" none) = some c₃ ∧ c₃.step (.continueShutdown "G" true) = some c₅ ∧
      replay Cluster.step (fun _ l => keepsLife "G" l = true) c₅
        (List.replicate 2 (.continueShutdown "G" true)) = some c ∧
      ("G", 1) ∈ c.storage.finalDots ∧ ∀ p ∈ minted gcPair c "G", p.dot.counter ≤ 1 := by
  have hrun : ((replay Cluster.step (fun _ l => keepsLife "G" l = true) gcPair
      (operate "G" ++ [.beginShutdown "G"])).bind fun c₂ =>
          (c₂.step (.handle "G" none)).bind fun c₃ =>
        (c₃.step (.continueShutdown "G" true)).bind fun c₅ =>
          (replay Cluster.step (fun _ l => keepsLife "G" l = true) c₅
            (List.replicate 2 (.continueShutdown "G" true))).map fun c =>
              decide ((c₂.nextRequest "G").map CrdtEngineRequest.isDeregistrationState =
                some true) &&
                decide ((c₃.core "G").map Core.shutdown = some (.putFinalDot 1)) &&
                (minted c₃ c "G").isEmpty) = some true := by decide +kernel
  obtain ⟨c₂, h₂, hrun⟩ := Option.bind_eq_some_iff.mp hrun
  obtain ⟨c₃, h₃, hrun⟩ := Option.bind_eq_some_iff.mp hrun
  obtain ⟨c₅, h₅, hrun⟩ := Option.bind_eq_some_iff.mp hrun
  obtain ⟨c, hc, hchecks⟩ := Option.map_eq_some_iff.mp hrun
  simp only [Bool.and_eq_true, decide_eq_true_eq, List.isEmpty_iff] at hchecks
  obtain ⟨⟨hasked, hphase⟩, hnone⟩ := hchecks
  obtain ⟨req, hnext, hreq⟩ := Option.map_eq_some_iff.mp hasked
  obtain ⟨k, hk, hphase⟩ := Option.map_eq_some_iff.mp hphase
  have hnext : c₂.nextRequest "G" = some .deregistrationState := by
    cases req with
    | deregistrationState => exact hnext
    | _ => cases hreq
  have hfinal := final_dot_is_final_iff gcPair c₂ c₃ c₃ c₅ c "G" none k 1 ⟨true, Or.inr rfl⟩
    (reachable_of_replay _ .start h₂) hnext h₃ .start hk hphase h₅ (reachable_of_replay _ .start hc)
  exact ⟨c₂, c₃, c₅, c, h₂, h₃, h₅, hc, hfinal.1, hfinal.2.mpr hnone⟩

/-- `G` answers that it has minted nothing, works off an operation, and departs with 0 as its final
dot. -/
theorem operation_above_the_final_dot :
    ∃ c, Reachable Cluster.step (fun _ l => keepsLife "G" l = true) gcPair c ∧
      c.nodes.lookup "G" = none ∧ c.storage.readFinalDots.lookup "G" = some 0 ∧
      ∃ p ∈ minted gcPair c "G", p.dot = ⟨"G", 1⟩ := by
  have hrun : (replay Cluster.step (fun _ l => keepsLife "G" l = true) gcPair
      ([.beginShutdown "G", .request "G" (.clientOperation (.add "x")),
        .handle "G" none, .handle "G" none] ++
        List.replicate 3 (.continueShutdown "G" true))).map (fun c =>
          decide ("G" ∉ c.nodes) && decide (c.storage.readFinalDots.lookup "G" = some 0) &&
            decide ((minted gcPair c "G").map (·.dot) = [⟨"G", 1⟩])) = some true :=
              by decide +kernel
  obtain ⟨c, hc, hchecks⟩ := Option.map_eq_some_iff.mp hrun
  simp only [Bool.and_eq_true, decide_eq_true_eq] at hchecks
  obtain ⟨⟨hgone, hread⟩, hminted⟩ := hchecks
  have hmem : (⟨"G", 1⟩ : Dot) ∈ (minted gcPair c "G").map (·.dot) := by simp [hminted]
  exact ⟨c, reachable_of_replay _ .start hc, AList.lookup_eq_none.mpr hgone,
    hread, List.mem_map.mp hmem⟩

end Cluster

end ExperimentalCrdt
