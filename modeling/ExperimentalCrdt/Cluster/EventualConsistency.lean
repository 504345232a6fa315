import ExperimentalCrdt.Cluster.FullState
import ExperimentalCrdt.Engine.Answers
import ExperimentalCrdt.Lib.Gossip

/-!
# Eventual consistency

What the replication is for: once the clients are done, the replicas come to hold the same. A pull
of `i` from `j` succeeds when `j` works off a request of `i`, and the delta, if there is one, is
worked off by `i` some time later. Messages may be lost, delayed and duplicated, and most pulls may
fail; it is enough that each replica, over and over again, succeeds with those it pulls from, and
that all are reached in this way. Then there is a time from which on every replica holds just the
elements with an add that no remove has observed (`eventually_consistent`).

A delta carries the whole knowledge of its sender, and a request never claims more than the
requester knows, so after a pull the requester knows what the other knew when it answered. The rest
is hearsay.
-/

namespace ExperimentalCrdt

open ObservedRemove (Live)
open Transition (Reachable replay reachable_of_isSome)

variable {E : Type} [DecidableEq E] {id : NodeId}

namespace Cluster

omit [DecidableEq E] in
/-- What `id` knows. -/
def knowledge (c : Cluster E) (id n : NodeId) : Nat :=
  ((c.core id).map fun k => k.replica.dvv.effectiveCounter n).getD 0

/-- The step works off the request at the head of the queue of `id`. -/
def WorksOff (c : Cluster E) (l : Label E) (s : Server E id) (req : CrdtEngineRequest E) : Prop :=
  c.nodes.lookup id = some s ∧ ∃ choice rest, l = .handle id choice ∧ s.engine.rx = req :: rest

/-- At `t`, `j` answers a pull request of `i`: it has nothing for it, or the delta is worked off
some time. -/
def Answered (run : Nat → Cluster E) (label : Nat → Label E) (i j : NodeId) (t : Nat) : Prop :=
  ∃ (s : Server E j) (K : CausalContext), (run t).WorksOff (label t) s
    (.deltaRequest i s.engine.crdtId K) ∧
    ∀ delta, s.engine.deltaPayload s.registry i K = some delta →
      ∃ (t' : Nat) (r : Server E i) (fromNode : NodeId) (km : Option MatrixClock), t ≤ t' ∧
        (run t').WorksOff (label t') r (.deltaResponse fromNode r.engine.crdtId delta km)

/-- A run without end and without garbage collection, in which every pull that `pulls` allows
succeeds again and again. -/
structure FairRun (members : HashMap NodeId Bool) (pulls : NodeId → NodeId → Prop)
    (run : Nat → Cluster E) (label : Nat → Label E) : Prop where
  start : Reachable Cluster.step (fun _ l => l.withoutGc = true) (fixed members) (run 0)
  step : ∀ t, (label t).withoutGc = true ∧ (run t).step (label t) = some (run (t + 1))
  fair : ∀ i j, pulls i j → ∀ t, ∃ t', t ≤ t' ∧ Answered run label i j t'

variable {c c' : Cluster E}

omit [DecidableEq E] in
theorem knowledge_of_core {k : Core E id} (hk : c.core id = some k) (n : NodeId) :
    c.knowledge id n = k.replica.dvv.effectiveCounter n := by
  unfold knowledge
  rw [hk]
  rfl

omit [DecidableEq E] in
theorem Grows.knowledge_le (h : Grows c c') (id n : NodeId) :
    c.knowledge id n ≤ c'.knowledge id n := by
  cases hk : c.core id with
  | none =>
    unfold knowledge
    rw [hk]
    exact Nat.zero_le _
  | some k =>
    obtain ⟨k', hk', -, hle⟩ := h id k hk
    rw [knowledge_of_core hk, knowledge_of_core hk']
    exact hle n

/-! ## One pull -/

theorem WorksOff.core_after {l : Label E} {s : Server E id} {req : CrdtEngineRequest E}
    (h : c.WorksOff l s req) (hstep : c.step l = some c') :
    ∃ (taken : Server E id) (choice : Option NodeId),
      taken.engine.replica = s.engine.replica ∧ taken.engine.crdtId = s.engine.crdtId ∧
        c'.core id = some (taken.handle c.storage.readEpochMetadata choice req).1.core := by
  obtain ⟨hs, choice, rest, rfl, hrx⟩ := h
  obtain ⟨s', hs', hstep⟩ := Option.bind_eq_some_iff.mp hstep
  obtain rfl := Option.some.inj (hs.symm.trans hs')
  split at hstep
  · next req' rest' htask hrx' =>
    obtain ⟨rfl, rfl⟩ := List.cons.inj (hrx.symm.trans hrx')
    obtain rfl := Option.some.inj hstep
    exact ⟨{ s with engine := { s.engine with rx := rest } }, choice, rfl, rfl,
      core_setServer_self _ _⟩
  · cases hstep

theorem WorksOff.knowledge_delta {l : Label E} {r : Server E id} {fromNode : NodeId}
    {km : Option MatrixClock} {j : NodeId} {s : Server E j} {K : CausalContext}
    (h : c.WorksOff l r (.deltaResponse fromNode r.engine.crdtId
      (s.engine.replica.crdt.deltaSince K s.engine.replica.dvv) km))
    (hstep : c.step l = some c') (n : NodeId) :
    s.engine.replica.dvv.effectiveCounter n ≤ c'.knowledge id n := by
  obtain ⟨taken, choice, hreplica, hname, hcore⟩ := h.core_after hstep
  rw [knowledge_of_core hcore]
  have hdvv : (km.elim taken.engine taken.engine.learnMatrix).replica.dvv =
      taken.engine.replica.dvv := by
    cases km <;> rfl
  simp only [Server.handle, CrdtEngine.handle, CrdtEngine.serverDelta, hname,
    ne_eq, not_true_eq_false, if_false,
    Server.core, CrdtEngine.mergeDelta, DotVersionVector.effectiveCounter_merge,
      OrSet.effectiveCounter_causalContext, hdvv]
  exact Nat.le_max_right _ _

theorem WorksOff.knowledge_request (h : WithoutGc c) {l : Label E} {i : NodeId} {s : Server E id}
    {K : CausalContext} (hw : c.WorksOff l s (.deltaRequest i s.engine.crdtId K))
    (hnone : s.engine.deltaPayload s.registry i K = none) (n : NodeId) :
    s.engine.replica.dvv.effectiveCounter n ≤ c.knowledge i n := by
  obtain ⟨hs, choice, rest, -, hrx⟩ := hw
  have hcore := c.core_of_lookup hs
  have hpending : c.Pending id (.deltaRequest i s.engine.crdtId K) :=
    Or.inl ⟨s, hs, hrx ▸ List.mem_cons_self⟩
  obtain ⟨k, hk, -, hle⟩ := h.rows.pending id _ hpending
  rw [knowledge_of_core hk]
  refine Nat.le_trans ?_ (hle n)
  obtain ⟨-, hcompared⟩ := (s.engine.deltaPayload_eq_none_iff s.registry i K).mp hnone
  refine Nat.le_trans (Nat.le_of_eq ?_) (hcompared n)
  -- the own counter is the counter of the dot
  have hself := (h.replicated.bounded id s.core hcore).effectiveCounter_self hcore
  change s.engine.replica.dvv.effectiveCounter id = s.engine.replica.dvv.dot.counter at hself
  have howner := s.engine.replica.dvv_owner
  unfold DotVersionVector.comparedCounter
  rw [howner]
  split
  · next hn => rw [hn, hself]
  · next hn =>
    unfold DotVersionVector.effectiveCounter
    rw [howner]
    exact if_neg hn

/-! ## All pulls -/

theorem core_of_step (h : WithoutGc c) {l : Label E} (hl : l.withoutGc = true)
    (hstep : c.step l = some c') {k' : Core E id} (hk' : c'.core id = some k') :
    ∃ k, c.core id = some k := by
  cases l with
  | request | receive | duplicate | drop | connect | disconnect =>
    have hq : Quiet _ c c' := step_quiet (by exact trivial) hstep
    exact ⟨k', hq.core id ▸ hk'⟩
  | handle x choice =>
    obtain ⟨s, req, hh⟩ := step_handle hstep
    by_cases hx : id = x
    · subst hx
      exact ⟨_, hh.before⟩
    · exact ⟨k', hh.others id hx ▸ hk'⟩
  | resume x ok =>
    obtain ⟨-, ⟨k, pc, hb⟩ | ⟨k, pc, hi⟩⟩ := step_resume hstep
    · have htask := h.idle x k hb.before
      rw [hb.task] at htask
      cases htask
    · have htask := h.idle x k hi.before
      rw [hi.task] at htask
      cases htask
  | heartbeat x =>
    obtain ⟨-, rfl⟩ := step_heartbeat hstep
    exact ⟨k', hk'⟩
  | start | beginShutdown | continueShutdown => cases hl

theorem mem_of_core {members : HashMap NodeId Bool}
    (h : Reachable Cluster.step (fun _ l => l.withoutGc = true) (fixed members) c) {k : Core E id}
    (hk : c.core id = some k) : id ∈ members := by
  refine h.invariant (P := fun c : Cluster E => ∀ (x : NodeId) (k : Core E x), c.core x = some k →
    x ∈ members)
    (fun x k hk => ?_) (fun s l s' hs hmem hl hstep x k hk => ?_) id k hk
  · obtain ⟨gcReplica, hlookup, -⟩ := core_fixed_cases hk
    exact AList.mem_of_lookup hlookup
  · obtain ⟨k, hk⟩ := core_of_step (withoutGc_of_reachable hs) hl hstep hk
    exact hmem x k hk

namespace FairRun

variable {members : HashMap NodeId Bool} {pulls : NodeId → NodeId → Prop} {run : Nat → Cluster E}
  {label : Nat → Label E} (h : FairRun members pulls run label)
include h

theorem reachable (t : Nat) :
    Reachable Cluster.step (fun _ l => l.withoutGc = true) (fixed members) (run t) := by
  induction t with
  | zero => exact h.start
  | succ t ih => exact .next ih (h.step t).1 (h.step t).2

theorem withoutGc (t : Nat) : WithoutGc (run t) := withoutGc_of_reachable (h.reachable t)

theorem monotone (i : NodeId) : Monotone fun t => (run t).knowledge i := by
  refine monotone_nat_of_le_succ fun t n => ?_
  obtain ⟨hl, hstep⟩ := h.step t
  exact ((h.withoutGc t).rows.step (Label.stays_of_withoutGc hl) hstep).2.knowledge_le i n

/-- After a pull, the requester knows what the other knew when it answered. -/
theorem hears {i j : NodeId} (hpulls : pulls i j) :
    Gossip.Hears (fun t => (run t).knowledge) i j := by
  intro t
  obtain ⟨t₁, ht₁, s, K, hanswer, hdelta⟩ := h.fair i j hpulls t
  have hknows : (run t₁).knowledge j = s.engine.replica.dvv.effectiveCounter :=
    funext fun n => knowledge_of_core ((run t₁).core_of_lookup hanswer.1) n
  have hbefore : (run t).knowledge j ≤ s.engine.replica.dvv.effectiveCounter :=
    hknows ▸ h.monotone j ht₁
  rcases s.engine.deltaPayload_cases s.registry i K with ⟨hnone, -⟩ | ⟨hsome, -⟩
  · exact ⟨t₁, ht₁, hbefore.trans fun n => hanswer.knowledge_request (h.withoutGc t₁) hnone n⟩
  · obtain ⟨t₂, r, fromNode, km, ht₂, hmerge⟩ := hdelta _ hsome
    refine ⟨t₂ + 1, by omega, hbefore.trans fun n => hmerge.knowledge_delta (h.step t₂).2 n⟩

theorem knows_all (hconnected : ∀ i ∈ members, ∀ j ∈ members, Relation.ReflTransGen pulls i j)
    (T : Nat) :
    ∃ t₀, T ≤ t₀ ∧ ∀ t, t₀ ≤ t → ∀ id ∈ members, ∀ p ∈ (run T).history,
      p.dot.counter ≤ (run t).knowledge id p.dot.nodeId := by
  have hfin : Set.Finite { id | id ∈ members } :=
    (List.finite_toSet members.keys).subset fun id hid => hid
  obtain ⟨t₀, hall⟩ := Gossip.eventually_all h.monotone hfin
    (fun i hi j hj => Gossip.hears_of_path (fun i j => h.hears) (hconnected i hi j hj)) T
  refine ⟨max T t₀, Nat.le_max_left _ _, fun t ht id hid p hp => ?_⟩
  have hminted := (h.withoutGc T).replicated.minted p hp
  cases hk : (run T).core p.dot.nodeId with
  | none =>
    unfold ownCounter at hminted
    rw [hk] at hminted
    exact Nat.le_trans hminted (Nat.zero_le _)
  | some k =>
    -- nobody knows more of a node's events than itself
    rw [ownCounter_of_core hk] at hminted
    have hself := ((h.withoutGc T).replicated.bounded _ k hk).effectiveCounter_self hk
    have hheard := hall t (Nat.le_trans (Nat.le_max_right _ _) ht) id hid _
      (mem_of_core (h.reachable T) hk) p.dot.nodeId
    rw [knowledge_of_core hk, hself] at hheard
    exact Nat.le_trans hminted hheard

theorem converges (hconnected : ∀ i ∈ members, ∀ j ∈ members, Relation.ReflTransGen pulls i j)
    (T : Nat) (hdone : ∀ t, T ≤ t → (run t).history = (run T).history) :
    ∃ t₀, ∀ t, t₀ ≤ t → ∀ id k, (run t).core id = some k → ∀ e, k.replica.crdt.contains e = true ↔
      ∃ p ∈ (run T).history, p.op = .add e ∧
        ¬ ∃ q ∈ (run T).history, q.op = .remove e ∧
        p.dot.counter ≤ counterAt q.past p.dot.nodeId := by
  obtain ⟨t₀, hT, hall⟩ := h.knows_all hconnected T
  refine ⟨t₀, fun t ht id k hk e => ?_⟩
  have hreplicated := (h.withoutGc t).replicated
  have hhistory := hdone t (Nat.le_trans hT ht)
  have hknown : ∀ p ∈ (run T).history, k.replica.dvv.dominatesDot p.dot = true := by
    intro p hp
    rw [DotVersionVector.dominatesDot_iff]
    have hle := hall t ht id (mem_of_core (h.reachable t) hk) p hp
    rwa [knowledge_of_core hk] at hle
  rw [contains_iff_live hreplicated.unique (hreplicated.faithful id k hk)]
  simp only [live_iff, hhistory]
  constructor
  · rintro ⟨_, ⟨p, hp, hadd, rfl⟩, -, hnot⟩
    exact ⟨p, hp, hadd, fun ⟨q, hq, hrem, hpast⟩ => hnot q hq hrem (hknown q hq) hpast⟩
  · rintro ⟨p, hp, hadd, hnot⟩
    exact ⟨p.dot, ⟨p, hp, hadd, rfl⟩, hknown p hp,
      fun q hq hrem _ hpast => hnot ⟨q, hq, hrem, hpast⟩⟩

end FairRun

/-- **Eventual consistency**: if every replica succeeds, again and again, in pulling from those it
pulls from, and these pulls connect all, then some time after the last client operation every
replica contains just the elements with an add that no remove had observed. -/
theorem eventually_consistent (members : HashMap NodeId Bool) (pulls : NodeId → NodeId → Prop)
    (run : Nat → Cluster E) (label : Nat → Label E) (h : FairRun members pulls run label)
    (hconnected : ∀ i ∈ members, ∀ j ∈ members, Relation.ReflTransGen pulls i j) (T : Nat)
    (hdone : ∀ t, T ≤ t → (run t).history = (run T).history) :
    ∃ t₀, ∀ t, t₀ ≤ t → ∀ id k, (run t).core id = some k → ∀ e, k.replica.crdt.contains e = true ↔
      ∃ p ∈ (run T).history, p.op = .add e ∧
        ¬ ∃ q ∈ (run T).history, q.op = .remove e ∧ p.dot.counter ≤ counterAt q.past p.dot.nodeId :=
  h.converges hconnected T hdone

/-! ## A run that goes round -/

section evaluation

local instance (priority := high) {K : Type} {B : K → Type} [DecidableEq K]
  [∀ k, DecidableEq (B k)] : DecidableEq (AList B) :=
  fun m m' => decidable_of_iff (m.entries = m'.entries) AList.ext_iff.symm

local instance (priority := high) : DecidableEq DotVersionVector := fun d d' =>
  decidable_of_iff (d.dot = d'.dot ∧ d.context = d'.context)
    ⟨fun ⟨hdot, hcontext⟩ =>
      by cases d; cases d'; cases hdot; cases hcontext; rfl, fun h => h ▸ ⟨rfl, rfl⟩⟩

local instance (priority := high) : DecidableEq EpochMetadata := fun m m' =>
  decidable_of_iff (m.epoch = m'.epoch ∧ m.vStable = m'.vStable ∧ m.obsoleteDots = m'.obsoleteDots)
    ⟨fun ⟨hepoch, hstable, hobsolete⟩ =>
      by cases m; cases m'; cases hepoch; cases hstable; cases hobsolete; rfl,
      fun h => h ▸ ⟨rfl, rfl, rfl⟩⟩

deriving instance DecidableEq for OrSet, OrSetDelta, EpochState, Storage,
  GcCoordinator, Replica, InitiateGc,
  CrdtEngineRequest, EngineTask, CrdtEngine, Server, Envelope, Packet, Performed, Cluster

/-- The run that goes round a loop. -/
def around (start : Cluster String) (loop : List (Label String)) (t : Nat) : Cluster String :=
  (replay Cluster.step (fun _ l => l.withoutGc = true) start (loop.take (t % loop.length))).getD
    start

def aroundLabel (loop : List (Label String)) (t : Nat) : Label String :=
  loop.getD (t % loop.length) (.receive 0)

/-- The loop leads back to where it began, without a client operation. -/
def GoesRound (start : Cluster String) (loop : List (Label String)) : Prop :=
  ∀ r < loop.length, (aroundLabel loop r).withoutGc = true ∧
    (around start loop r).step (aroundLabel loop r) = some (around start loop (r + 1)) ∧
    (around start loop r).history = start.history

instance (start : Cluster String) (loop : List (Label String)) :
    Decidable (GoesRound start loop) := by
  unfold GoesRound
  infer_instance

section around

variable {start : Cluster String} {loop : List (Label String)}

theorem around_mod (start : Cluster String) (loop : List (Label String)) (t : Nat) :
    around start loop (t % loop.length) = around start loop t ∧
    around start loop (t % loop.length + 1) = around start loop (t + 1) ∧
    aroundLabel loop (t % loop.length) = aroundLabel loop t := by
  unfold around aroundLabel
  rw [Nat.mod_mod, Nat.mod_add_mod]
  exact ⟨rfl, rfl, rfl⟩

theorem GoesRound.facts (h : GoesRound start loop) (hloop : 0 < loop.length) (t : Nat) :
    ((aroundLabel loop t).withoutGc = true ∧
      (around start loop t).step (aroundLabel loop t) = some (around start loop (t + 1))) ∧
    (around start loop t).history = start.history := by
  obtain ⟨hstate, hnext, hlabel⟩ := around_mod start loop t
  obtain ⟨hl, hstep, hhistory⟩ := h (t % loop.length) (Nat.mod_lt t hloop)
  rw [hlabel] at hl hstep
  rw [hstate] at hstep hhistory
  rw [hnext] at hstep
  exact ⟨⟨hl, hstep⟩, hhistory⟩

end around

/-- The first request of `j` is one of `i`, for which there is nothing. -/
def nothingFor (c : Cluster String) (i j : NodeId) : Bool :=
  (c.nodes.lookup j).elim false fun s =>
    match s.engine.rx with
    | .deltaRequest fromNode crdtId K :: _ =>
      fromNode == i && crdtId == s.engine.crdtId && (s.engine.deltaPayload s.registry i K).isNone
    | _ => false

theorem answered_of_nothingFor {run : Nat → Cluster String} {label : Nat → Label String}
    {i j : NodeId} {t : Nat} {choice : Option NodeId} (hlabel : label t = .handle j choice)
    (h : nothingFor (run t) i j = true) :
    Answered run label i j t := by
  unfold nothingFor at h
  cases hs : (run t).nodes.lookup j with
  | none =>
    rw [hs] at h
    cases h
  | some s =>
    rw [hs, Option.elim_some] at h
    split at h
    · next fromNode crdtId K rest hrx =>
      simp only [Bool.and_eq_true, beq_iff_eq, Option.isNone_iff_eq_none] at h
      obtain ⟨⟨rfl, rfl⟩, hnone⟩ := h
      refine ⟨s, K, ⟨hs, choice, rest, hlabel, hrx⟩, fun delta hdelta => ?_⟩
      rw [hnone] at hdelta
      cases hdelta
    · cases h

theorem answered_around {start : Cluster String} {loop : List (Label String)} {i j : NodeId}
    {choice : Option NodeId} {r : Nat} (hr : r < loop.length)
    (hlabel : aroundLabel loop r = .handle j choice)
    (h : nothingFor (around start loop r) i j = true) (t : Nat) :
    ∃ t', t ≤ t' ∧ Answered (around start loop) (aroundLabel loop) i j t' := by
  have hmod : (r + loop.length * t) % loop.length = r := by
    rw [Nat.add_mul_mod_self_left, Nat.mod_eq_of_lt hr]
  obtain ⟨hstate, -, hlabel'⟩ := around_mod start loop (r + loop.length * t)
  rw [hmod] at hstate hlabel'
  refine ⟨r + loop.length * t, ?_, answered_of_nothingFor (hlabel'.symm.trans hlabel) (hstate ▸ h)⟩
  have hle : 1 * t ≤ loop.length * t := Nat.mul_le_mul_right t (by omega)
  omega

end evaluation

/-- `A` has added `x`, and `B` has fetched it; now `A` asks `B`, who has nothing for it. -/
def spreadX : List (Label String) :=
  [.connect "A" "B" false, .connect "B" "A" false, .request "A" (.clientOperation (.add "x")),
    .handle "A" none,
    .request "B" .doPullRound, .handle "B" (some "A"), .receive 0, .handle "A" none,
      .receive 0, .handle "B" none,
    .request "B" .doPullRound, .handle "B" (some "A"), .receive 0, .handle "A" none,
    .request "A" .doPullRound, .handle "A" (some "B"), .receive 0, .handle "B" none]

/-- `B` asks `A`, and `A` asks `B`. -/
def pullBoth : List (Label String) :=
  [.request "B" .doPullRound, .handle "B" (some "A"), .receive 0, .handle "A" none,
    .request "A" .doPullRound, .handle "A" (some "B"), .receive 0, .handle "B" none]

def twoMembers : HashMap NodeId Bool := AList.ofPairs [("A", false), ("B", false)]

def bothKnow : Cluster String :=
  (replay Cluster.step (fun _ l => l.withoutGc = true) (fixed twoMembers) spreadX).getD
    (fixed twoMembers)

/-- `A` and `B` pull from each other. -/
def eachOther (i j : NodeId) : Prop := i = "B" ∧ j = "A" ∨ i = "A" ∧ j = "B"

theorem goesRound_pullBoth : GoesRound bothKnow pullBoth := by decide +kernel

theorem fairRun_pullBoth :
    FairRun twoMembers eachOther (around bothKnow pullBoth) (aroundLabel pullBoth) := by
  refine ⟨?_, fun t => (goesRound_pullBoth.facts (by decide) t).1, fun i j hij t => ?_⟩
  · have hrun : (replay Cluster.step (fun _ l => l.withoutGc = true)
        (fixed twoMembers) spreadX).isSome = true := by
      decide +kernel
    exact (reachable_of_isSome hrun : Reachable _ _ _ bothKnow)
  · rcases hij with ⟨rfl, rfl⟩ | ⟨rfl, rfl⟩
    · exact answered_around (r := 3) (by decide) rfl (by decide +kernel) t
    · exact answered_around (r := 7) (by decide) rfl (by decide +kernel) t

/-- Both end up with `x`. -/
theorem eventually_consistent_pullBoth : ∃ t₀, ∀ t, t₀ ≤ t →
    ∀ id k, (around bothKnow pullBoth t).core id = some k →
    k.replica.crdt.contains "x" = true := by
  have hmembers : ∀ i ∈ twoMembers, i = "B" ∨ i = "A" := by decide +kernel
  have hconnected : ∀ i ∈ twoMembers, ∀ j ∈ twoMembers, Relation.ReflTransGen eachOther i j := by
    intro i hi j hj
    rcases hmembers i hi with rfl | rfl <;> rcases hmembers j hj with rfl | rfl
    · exact .refl
    · exact .single (Or.inl ⟨rfl, rfl⟩)
    · exact .single (Or.inr ⟨rfl, rfl⟩)
    · exact .refl
  have hhistory := fun t => (goesRound_pullBoth.facts (by decide) t).2
  obtain ⟨t₀, hall⟩ := eventually_consistent twoMembers eachOther _ _ fairRun_pullBoth hconnected 0
    fun t _ => (hhistory t).trans (hhistory 0).symm
  have hops : (around bothKnow pullBoth 0).history.map (fun p => p.op) = [.add "x"] :=
    by decide +kernel
  obtain ⟨p, hp, hadd⟩ := List.map_eq_singleton_iff.mp hops
  refine ⟨t₀, fun t ht id k hk => (hall t ht id k hk "x").mpr
    ⟨p, hp ▸ List.mem_singleton_self p, hadd, ?_⟩⟩
  rintro ⟨q, hq, hrem, -⟩
  rw [hp] at hq
  obtain rfl := List.mem_singleton.mp hq
  rw [hadd] at hrem
  cases hrem

end Cluster

end ExperimentalCrdt
