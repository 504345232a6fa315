import ExperimentalCrdt.Cluster.FastPath
import ExperimentalCrdt.Cluster.Servers

/-!
# One push-pull exchange

`A` pulls from `B`, works off the answer, and answers the request that may have come with it. After
that both know the same (`Absorbed`), unless `B` is a GC replica that knows nothing: its empty map
travels with the delta that it always sends to a GC replica, and an empty map is taken for no
request at all (`Silenced`, `handle_received_envelope`).

They also contain the same elements, exactly when no element depends on an add that one of them
shows and that the other, which knows it or has a tombstone for it, does not (`Agree`). So they do
in every run in which collection changes nothing.
-/

namespace ExperimentalCrdt

open ObservedRemove (Faithful Live Gone)
open Transition (Reachable replay reachable_of_replay)

variable {E : Type} [DecidableEq E] {id idA idB : NodeId}

/-! ## The exchange -/

namespace Server

/-- What of an outbox answers the request. The push that follows a merge goes to a random peer and
answers nobody. -/
def answer (req : CrdtEngineRequest E) (outbox : Outbox E) : Outbox E :=
  match req with
  | .deltaRequest _ _ _ => outbox
  | _ => []

/-- Work off requests one after another; the second component is what they are answered with. -/
def workOff (m : EpochMetadata) (choice : Option NodeId) :
    List (CrdtEngineRequest E) → Server E id → Server E id × Outbox E
  | [], s => (s, [])
  | req :: reqs, s =>
    let handled := s.handle m choice req
    let rest := workOff m choice reqs handled.1
    (rest.1, answer req handled.2 ++ rest.2)

/-- Receive the envelopes that are addressed to this server, and work them off. -/
def receive (s : Server E id) (m : EpochMetadata) (choice : Option NodeId) (outbox : Outbox E) :
    Server E id × Outbox E :=
  workOff m choice
    ((outbox.filter fun e => decide (e.1 = id)).flatMap fun e => handleReceivedEnvelope e.2) s

end Server

/-- `a` pulls from `b`, `b` answers, `a` works off the answer and `b` the answer to that. -/
def exchange (m : EpochMetadata) (choiceA choiceB : Option NodeId) (a : Server E idA)
    (b : Server E idB) :
    Server E idA × Server E idB :=
  let asking := a.handle m (some idB) .doPullRound
  let answering := b.receive m choiceB asking.2
  let merging := asking.1.receive m choiceA answering.2
  (merging.1, (answering.1.receive m choiceB merging.2).1)

/-! ## What a pull request is answered with -/

/-- The four shapes of an answer to a requester that knows `K`. -/
inductive Answer (q : Replica E id) (forced : Bool) (requester : NodeId) (K : CausalContext) :
    Outbox E → Prop
  | silent (hdelta : forced = false ∧ ∀ n, q.dvv.effectiveCounter n ≤ counterAt K n)
      (hask : ∀ n, counterAt K n ≤ q.dvv.effectiveCounter n) : Answer q forced requester K []
  | request (hdelta : forced = false ∧ ∀ n, q.dvv.effectiveCounter n ≤ counterAt K n)
      (hask : ∃ n, q.dvv.effectiveCounter n < counterAt K n) (gcReplica : Bool) :
      Answer q forced requester K
        [(requester, .crdtPullRequest Server.crdtId gcReplica id (some q.dvv.effectiveMap))]
  | delta (hdelta : forced = true ∨ ∃ n, counterAt K n < q.dvv.effectiveCounter n)
      (hask : ∀ n, counterAt K n ≤ q.dvv.effectiveCounter n) (km : Option MatrixClock) :
      Answer q forced requester K
        [(requester, .crdtOp Server.crdtId (q.crdt.deltaSince K q.dvv) id none km)]
  | both (hdelta : forced = true ∨ ∃ n, counterAt K n < q.dvv.effectiveCounter n)
      (hask : ∃ n, q.dvv.effectiveCounter n < counterAt K n) (km : Option MatrixClock) :
      Answer q forced requester K
        [(requester, .crdtOp Server.crdtId (q.crdt.deltaSince K q.dvv) id
          (some q.dvv.effectiveMap) km)]

theorem Server.answers (t : Server E id) (hname : t.engine.crdtId = Server.crdtId)
    (hordered : t.engine.replica.dvv.Ordered) (m : EpochMetadata) (choice : Option NodeId)
    {requester : NodeId} (hreg : requester ∈ t.registry) (K : CausalContext) :
    let handled := t.handle m choice (.deltaRequest requester Server.crdtId K)
    handled.1.engine.replica.dvv = t.engine.replica.dvv ∧
      handled.1.engine.replica.crdt = t.engine.replica.crdt ∧
      Answer t.engine.replica (t.engine.forced t.registry requester) requester K handled.2 := by
  intro handled
  have hhandled : handled.2 = (t.engine.serverPullRequest t.registry requester Server.crdtId K).2 :=
    rfl
  have hkept :
      (t.engine.serverPullRequest t.registry requester Server.crdtId K).1.replica.dvv =
        t.engine.replica.dvv ∧
        (t.engine.serverPullRequest t.registry requester Server.crdtId K).1.replica.crdt =
          t.engine.replica.crdt := by
    unfold CrdtEngine.serverPullRequest
    split <;> exact ⟨rfl, rfl⟩
  refine ⟨hkept.1, hkept.2, ?_⟩
  rw [hhandled]
  unfold CrdtEngine.serverPullRequest
  rw [if_neg (not_not.mpr hname.symm), hname]
  dsimp only
  set engine := t.engine.learnMatrix ((∅ : MatrixClock).insert requester K) with hengine
  have hcompared : ∀ n, engine.replica.dvv.comparedCounter n =
      t.engine.replica.dvv.effectiveCounter n :=
    hordered.comparedCounter
  have hsend : ∀ envelope : Envelope E,
      PushPull.sendToPeer t.registry requester envelope = [(requester, envelope)] :=
    fun envelope => if_pos hreg
  have hpayload := engine.deltaPayload_cases t.registry requester K
  have hours := engine.ourKnowledgeRequest_cases K
  simp only [hcompared] at hpayload
  rcases hpayload with ⟨hdelta, hnothing⟩ | ⟨hdelta, hsome⟩
  · rcases hours with ⟨hask, hle⟩ | ⟨hask, hahead⟩
    · rw [hdelta, hask]
      exact .silent hnothing hle
    · rw [hdelta, hask]
      unfold PushPull.respondToPullRequest
      dsimp only
      rw [hsend]
      exact .request hnothing hahead _
  · rcases hours with ⟨hask, hle⟩ | ⟨hask, hahead⟩
    · rw [hdelta, hask]
      unfold PushPull.respondToPullRequest
      dsimp only
      rw [hsend]
      exact .delta hsome hle _
    · rw [hdelta, hask]
      unfold PushPull.respondToPullRequest
      dsimp only
      rw [hsend]
      exact .both hsome hahead _

/-! ## What an exchange leaves -/

/-- `q` answers a request of `r` with a delta. -/
def Told (forced : Bool) (r : Replica E idA) (q : Replica E idB) : Prop :=
  forced = true ∨ ∃ n, r.dvv.effectiveCounter n < q.dvv.effectiveCounter n

omit [DecidableEq E] in
theorem not_told_iff {forced : Bool} {r : Replica E idA} {q : Replica E idB} : ¬ Told forced r q ↔
    forced = false ∧ ∀ n, q.dvv.effectiveCounter n ≤ r.dvv.effectiveCounter n := by
  unfold Told
  rw [not_or, Bool.not_eq_true, not_exists]
  simp only [Nat.not_lt]

/-- `r'` is `r` after the delta of `q` that was cut for it, if `q` had one to send. -/
inductive Absorbed (forced : Bool) (r : Replica E idA) (q : Replica E idB) (r' : Replica E idA) :
    Prop
  | merged (htold : Told forced r q)
      (hdvv : r'.dvv = r.dvv.merge (q.crdt.deltaSince r.dvv.effectiveMap q.dvv).causalContext)
      (hcrdt : r'.crdt = r.crdt.mergeDelta (q.crdt.deltaSince r.dvv.effectiveMap q.dvv))
  | nothing (hnot : ¬ Told forced r q) (hdvv : r'.dvv = r.dvv) (hcrdt : r'.crdt = r.crdt)

namespace Absorbed

variable {forced : Bool} {r r' : Replica E idA} {q : Replica E idB} (h : Absorbed forced r q r')
include h

theorem congr {s s' : Replica E idA} {t : Replica E idB} (hr : s.dvv = r.dvv ∧ s.crdt = r.crdt)
    (hq : t.dvv = q.dvv ∧ t.crdt = q.crdt) (hr' : s'.dvv = r'.dvv ∧ s'.crdt = r'.crdt) :
    Absorbed forced s t s' := by
  have htold : Told forced s t ↔ Told forced r q := by
    unfold Told
    rw [hr.1, hq.1]
  rcases h with ⟨hsent, hdvv, hcrdt⟩ | ⟨hnot, hdvv, hcrdt⟩
  · refine .merged (htold.mpr hsent) ?_ ?_
    · rw [hr'.1, hr.1, hq.1, hq.2, hdvv]
    · rw [hr'.2, hr.1, hr.2, hq.1, hq.2, hcrdt]
  · refine .nothing (fun hsent => hnot (htold.mp hsent)) ?_ ?_
    · rw [hr'.1, hr.1, hdvv]
    · rw [hr'.2, hr.2, hcrdt]

theorem effectiveCounter (n : NodeId) :
    r'.dvv.effectiveCounter n = max (r.dvv.effectiveCounter n) (q.dvv.effectiveCounter n) := by
  rcases h with ⟨-, hdvv, -⟩ | ⟨hnot, hdvv, -⟩
  · rw [hdvv, DotVersionVector.effectiveCounter_merge, OrSet.effectiveCounter_causalContext]
  · rw [hdvv, max_eq_left ((not_told_iff.mp hnot).2 n)]

theorem ordered (hr : r.dvv.Ordered) : r'.dvv.Ordered := by
  rcases h with ⟨-, hdvv, -⟩ | ⟨-, hdvv, -⟩
  · rw [hdvv]
    exact hr.merge _
  · rw [hdvv]
    exact hr

theorem positive (hr : r.dvv.Positive) (hq : q.dvv.Positive) : r'.dvv.Positive := by
  rcases h with ⟨-, hdvv, -⟩ | ⟨-, hdvv, -⟩
  · rw [hdvv]
    exact hr.merge (Cluster.positiveRules.deltaSince idB q r.dvv.effectiveMap hq)
  · rw [hdvv]
    exact hr

end Absorbed

namespace Server

variable {m : EpochMetadata} {choice : Option NodeId}

theorem receive_singleton (s : Server E id) (envelope : Envelope E) :
    s.receive m choice [(id, envelope)] = workOff m choice (handleReceivedEnvelope envelope) s := by
  simp [receive]

theorem workOff_request (s : Server E id) (fromNode : NodeId) (crdtId : String)
    (K : CausalContext) :
    workOff m choice [.deltaRequest fromNode crdtId K] s =
      s.handle m choice (.deltaRequest fromNode crdtId K) := by
  simp [workOff, answer]

theorem workOff_delta (s : Server E id) (fromNode : NodeId) (crdtId : String) (delta : OrSetDelta E)
    (km : Option MatrixClock) (reqs : List (CrdtEngineRequest E)) :
    workOff m choice (.deltaResponse fromNode crdtId delta km :: reqs) s =
      workOff m choice reqs (s.handle m choice (.deltaResponse fromNode crdtId delta km)).1 := by
  simp [workOff, answer]

theorem receive_pullRequest (s : Server E id) (crdtId : String) (gcReplica : Bool) (origin : NodeId)
    (K : CausalContext) :
    s.receive m choice [(id, .crdtPullRequest crdtId gcReplica origin (some K))] =
      s.handle m choice (.deltaRequest origin crdtId K) := by
  rw [receive_singleton, handleReceivedEnvelope, Option.getD_some, workOff_request]

theorem receive_delta (s : Server E id) (crdtId : String) (delta : OrSetDelta E) (fromNode : NodeId)
    (km : Option MatrixClock) :
    s.receive m choice [(id, .crdtOp crdtId delta fromNode none km)] =
      ((s.handle m choice (.deltaResponse fromNode crdtId delta km)).1, []) := by
  rw [receive_singleton]
  exact s.workOff_delta fromNode crdtId delta km []

theorem receive_both_of_empty (s : Server E id) (crdtId : String) (delta : OrSetDelta E)
    (fromNode : NodeId) {K : CausalContext} (h : K.entries = []) (km : Option MatrixClock) :
    s.receive m choice [(id, .crdtOp crdtId delta fromNode (some K) km)] =
      ((s.handle m choice (.deltaResponse fromNode crdtId delta km)).1, []) := by
  rw [receive_singleton, handleReceivedEnvelope, h]
  exact s.workOff_delta fromNode crdtId delta km []

theorem receive_both_of_nonempty (s : Server E id) (crdtId : String) (delta : OrSetDelta E)
    (fromNode : NodeId) {K : CausalContext} (h : K.entries ≠ []) (km : Option MatrixClock) :
    s.receive m choice [(id, .crdtOp crdtId delta fromNode (some K) km)] =
      (s.handle m choice (.deltaResponse fromNode crdtId delta km)).1.handle m choice
        (.deltaRequest fromNode crdtId K) := by
  rw [receive_singleton, handleReceivedEnvelope, if_neg (by rwa [List.isEmpty_iff]),
    workOff_delta, workOff_request]

theorem merge_delta (s : Server E id) (hname : s.engine.crdtId = Server.crdtId) (m : EpochMetadata)
    (choice : Option NodeId) (fromNode : NodeId) (delta : OrSetDelta E) (km : Option MatrixClock) :
    let handled := (s.handle m choice (.deltaResponse fromNode Server.crdtId delta km)).1
    handled.engine.replica.dvv = s.engine.replica.dvv.merge delta.causalContext ∧
      handled.engine.replica.crdt = s.engine.replica.crdt.mergeDelta delta := by
  intro handled
  have hhandled :
    handled.engine = (s.engine.serverDelta s.registry choice Server.crdtId delta km).1 := rfl
  rw [hhandled]
  unfold CrdtEngine.serverDelta
  rw [if_neg (not_not.mpr hname.symm)]
  cases km <;> exact ⟨rfl, rfl⟩

theorem absorbed_answer {a : Server E idA} {b : Server E idB} (ha : a.engine.crdtId = Server.crdtId)
    (hordered : a.engine.replica.dvv.Ordered) (hb : b.engine.crdtId = Server.crdtId)
    (hreg : idB ∈ a.registry)
    (hknows : ∀ n, b.engine.replica.dvv.effectiveCounter n ≤
      a.engine.replica.dvv.effectiveCounter n)
    (htold : Told false b.engine.replica a.engine.replica) (m : EpochMetadata)
    (choice choice' : Option NodeId) :
    Absorbed false b.engine.replica a.engine.replica (b.receive m choice' (a.handle m choice
      (.deltaRequest idB Server.crdtId b.engine.replica.dvv.effectiveMap)).2).1.engine.replica := by
  have hanswer := (a.answers ha hordered m choice hreg b.engine.replica.dvv.effectiveMap).2.2
  have hahead : ¬ ∃ n, a.engine.replica.dvv.effectiveCounter n <
      counterAt b.engine.replica.dvv.effectiveMap n := by
    rintro ⟨n, hn⟩
    rw [DotVersionVector.counterAt_effectiveMap] at hn
    have := hknows n
    omega
  generalize (a.handle m choice
    (.deltaRequest idB Server.crdtId b.engine.replica.dvv.effectiveMap)).2 = out at hanswer
  cases hanswer with
  | silent hdelta hask =>
    obtain ⟨n, hn⟩ := htold.resolve_left Bool.false_ne_true
    have hle := hdelta.2 n
    rw [DotVersionVector.counterAt_effectiveMap] at hle
    omega
  | request hdelta hask gcReplica => exact absurd hask hahead
  | delta hdelta hask km =>
    rw [receive_delta]
    obtain ⟨hdvv, hcrdt⟩ := b.merge_delta hb m choice' idA
      (a.engine.replica.crdt.deltaSince b.engine.replica.dvv.effectiveMap a.engine.replica.dvv) km
    exact .merged htold hdvv hcrdt
  | both hdelta hask km => exact absurd hask hahead

end Server

/-- `b` always answers `a` with a delta, and the request that would come with it is an empty map. -/
def Silenced (a : Server E idA) (b : Server E idB) : Prop :=
  b.engine.forced b.registry idA = true ∧ b.engine.replica.dvv.effectiveMap.entries = [] ∧
    a.engine.replica.dvv.effectiveMap.entries ≠ []

instance (a : Server E idA) (b : Server E idB) : Decidable (Silenced a b) :=
  inferInstanceAs (Decidable (_ ∧ _ ∧ _))

section exchange

variable {a : Server E idA} {b : Server E idB} (ha : a.engine.crdtId = Server.crdtId)
  (hb : b.engine.crdtId = Server.crdtId) (hoa : a.engine.replica.dvv.Ordered)
  (hob : b.engine.replica.dvv.Ordered) (hab : idA ∈ b.registry) (hba : idB ∈ a.registry)
  (m : EpochMetadata) (choiceA choiceB : Option NodeId)

theorem exchange_eq (ha : a.engine.crdtId = Server.crdtId) (hba : idB ∈ a.registry) :
    let asked :=
      b.handle m choiceB (.deltaRequest idA Server.crdtId a.engine.replica.dvv.effectiveMap)
    let merging := a.receive m choiceA asked.2
    exchange m choiceA choiceB a b = (merging.1, (asked.1.receive m choiceB merging.2).1) := by
  have hpull : (a.handle m (some idB) .doPullRound).2 = [(idB, .crdtPullRequest Server.crdtId
      a.engine.replica.gc.gcReplica idA (some a.engine.replica.dvv.effectiveMap))] := by
    show PushPull.doPullRound a.registry (some idB) idA a.engine.crdtId _ _ = _
    unfold PushPull.doPullRound PushPull.pushVersionVector PushPull.sendToPeer
    rw [ha]
    exact if_pos hba
  unfold exchange
  dsimp only
  rw [hpull, Server.receive_pullRequest]
  rfl

omit [DecidableEq E] in
theorem silenced_of_dropped
    (htold : Told (b.engine.forced b.registry idA) a.engine.replica b.engine.replica)
    (hask : ∃ n, b.engine.replica.dvv.effectiveCounter n < a.engine.replica.dvv.effectiveCounter n)
    (hempty : b.engine.replica.dvv.effectiveMap.entries = []) : Silenced a b := by
  have hnone : ∀ n, b.engine.replica.dvv.effectiveCounter n = 0 := by
    intro n
    rw [← DotVersionVector.counterAt_effectiveMap,
      show b.engine.replica.dvv.effectiveMap = ∅ from AList.ext hempty, counterAt_empty]
  refine ⟨htold.resolve_right fun hahead => ?_, hempty, fun hnil => ?_⟩
  · obtain ⟨n, hn⟩ := hahead
    rw [hnone n] at hn
    exact Nat.not_lt_zero _ hn
  · obtain ⟨n, hn⟩ := hask
    rw [← a.engine.replica.dvv.counterAt_effectiveMap,
      show a.engine.replica.dvv.effectiveMap = ∅ from AList.ext hnil, counterAt_empty] at hn
    exact Nat.not_lt_zero _ hn

theorem absorbed_request (ha : a.engine.crdtId = Server.crdtId) (hoa : a.engine.replica.dvv.Ordered)
    (hba : idB ∈ a.registry) {t : Server E idB} (ht : t.engine.crdtId = Server.crdtId)
    (hsame : t.engine.replica.dvv = b.engine.replica.dvv ∧
      t.engine.replica.crdt = b.engine.replica.crdt)
    (hknows : ∀ n, b.engine.replica.dvv.effectiveCounter n ≤
      a.engine.replica.dvv.effectiveCounter n)
    (htold : Told false b.engine.replica a.engine.replica) :
    let asked :=
      a.handle m choiceA (.deltaRequest idB Server.crdtId b.engine.replica.dvv.effectiveMap)
    Absorbed false b.engine.replica asked.1.engine.replica
        (t.receive m choiceB asked.2).1.engine.replica := by
  obtain ⟨hdvv, hcrdt⟩ := hsame
  obtain ⟨hdvv₁, hcrdt₁, -⟩ := a.answers ha hoa m choiceA hba b.engine.replica.dvv.effectiveMap
  have htold : Told false t.engine.replica a.engine.replica := by
    unfold Told at htold ⊢
    rwa [hdvv]
  have hanswered := Server.absorbed_answer ha hoa ht hba
    (fun n => by rw [hdvv]; exact hknows n) htold m choiceA choiceB
  rw [hdvv] at hanswered
  exact hanswered.congr ⟨hdvv.symm, hcrdt.symm⟩ ⟨hdvv₁, hcrdt₁⟩ ⟨rfl, rfl⟩

include ha hb hoa hob hab hba

/-- **What an exchange leaves**: `a` absorbs what `b` knew, and `b` what `a` knows then, unless `b`
is silenced. -/
theorem exchange_absorbed :
    let out := exchange m choiceA choiceB a b
    Absorbed (b.engine.forced b.registry idA) a.engine.replica b.engine.replica
      out.1.engine.replica ∧
      (¬ Silenced a b → Absorbed false b.engine.replica out.1.engine.replica out.2.engine.replica) ∧
      (Silenced a b → out.2.engine.replica.dvv = b.engine.replica.dvv) := by
  have hexchange := exchange_eq (b := b) m choiceA choiceB ha hba
  dsimp only at hexchange ⊢
  rw [hexchange]
  obtain ⟨hdvv, hcrdt, hanswer⟩ := b.answers hb hob m choiceB hab a.engine.replica.dvv.effectiveMap
  set t := (b.handle m choiceB
    (.deltaRequest idA Server.crdtId a.engine.replica.dvv.effectiveMap)).1 with ht
  have htname : t.engine.crdtId = Server.crdtId := (b.handle_crdtId m choiceB _).trans hb
  generalize (b.handle m choiceB
    (.deltaRequest idA Server.crdtId a.engine.replica.dvv.effectiveMap)).2 = reply
    at hanswer
  have hK : ∀ n, counterAt a.engine.replica.dvv.effectiveMap n =
      a.engine.replica.dvv.effectiveCounter n :=
    a.engine.replica.dvv.counterAt_effectiveMap
  -- what `a` is after it merged the delta of `b`
  have hmerged := a.merge_delta ha m choiceA idB
    (b.engine.replica.crdt.deltaSince a.engine.replica.dvv.effectiveMap b.engine.replica.dvv)
  cases hanswer with
  | silent hdelta hask =>
    simp only [hK] at hdelta hask
    exact ⟨.nothing (not_told_iff.mpr hdelta) rfl rfl,
      fun _ => .nothing (not_told_iff.mpr ⟨rfl, hask⟩) hdvv hcrdt,
      fun _ => hdvv⟩
  | request hdelta hask gcReplica =>
    simp only [hK] at hdelta hask
    rw [Server.receive_pullRequest]
    obtain ⟨hdvv₁, hcrdt₁, -⟩ := a.answers ha hoa m choiceA hba b.engine.replica.dvv.effectiveMap
    refine ⟨.nothing (not_told_iff.mpr hdelta) hdvv₁ hcrdt₁, fun _ => ?_, fun hsilenced => ?_⟩
    · exact absorbed_request m choiceA choiceB ha hoa hba htname ⟨hdvv, hcrdt⟩ hdelta.2
        (Or.inr hask)
    · rw [hsilenced.1] at hdelta
      cases hdelta.1
  | delta hdelta hask km =>
    simp only [hK] at hdelta hask
    have habsorbed := Absorbed.merged (q := b.engine.replica) hdelta (hmerged km).1 (hmerged km).2
    rw [Server.receive_delta]
    refine ⟨habsorbed, fun _ => .nothing (not_told_iff.mpr ⟨rfl, fun n => ?_⟩) hdvv hcrdt,
      fun _ => hdvv⟩
    exact (habsorbed.effectiveCounter n).trans_le (max_le (hask n) (Nat.le_refl _))
  | both hdelta hask km =>
    simp only [hK] at hdelta hask
    have habsorbed := Absorbed.merged (q := b.engine.replica) hdelta (hmerged km).1 (hmerged km).2
    by_cases hempty : b.engine.replica.dvv.effectiveMap.entries = []
    · -- the request is dropped
      rw [Server.receive_both_of_empty a _ _ _ hempty]
      exact ⟨habsorbed, fun hspoken => absurd (silenced_of_dropped hdelta hask hempty) hspoken,
        fun _ => hdvv⟩
    · rw [Server.receive_both_of_nonempty a _ _ _ hempty]
      set a₁ := (a.handle m choiceA (.deltaResponse idB Server.crdtId
        (b.engine.replica.crdt.deltaSince a.engine.replica.dvv.effectiveMap b.engine.replica.dvv)
          km)).1 with ha₁
      have hname : a₁.engine.crdtId = Server.crdtId := (a.handle_crdtId m choiceA _).trans ha
      have hordered : a₁.engine.replica.dvv.Ordered := habsorbed.ordered hoa
      have hknows : ∀ n, b.engine.replica.dvv.effectiveCounter n ≤
          a₁.engine.replica.dvv.effectiveCounter n := by
        intro n
        rw [habsorbed.effectiveCounter n]
        exact Nat.le_max_right _ _
      have htold : Told false b.engine.replica a₁.engine.replica := by
        obtain ⟨n, hn⟩ := hask
        refine Or.inr ⟨n, ?_⟩
        rw [habsorbed.effectiveCounter n]
        exact lt_max_of_lt_left hn
      obtain ⟨hdvv₁, hcrdt₁, -⟩ :=
        a₁.answers hname hordered m choiceA hba b.engine.replica.dvv.effectiveMap
      refine ⟨habsorbed.congr ⟨rfl, rfl⟩ ⟨rfl, rfl⟩ ⟨hdvv₁, hcrdt₁⟩, fun _ => ?_,
        fun hsilenced => absurd hsilenced.2.1 hempty⟩
      exact absorbed_request m choiceA choiceB hname hordered hba htname ⟨hdvv, hcrdt⟩ hknows htold

/-- **Both know the same after an exchange exactly when** `b` is not silenced. -/
theorem exchange_knowledge_iff (hpa : a.engine.replica.dvv.Positive)
    (hpb : b.engine.replica.dvv.Positive) :
    let out := exchange m choiceA choiceB a b
    (∀ n, out.1.engine.replica.dvv.effectiveMap.lookup n =
      out.2.engine.replica.dvv.effectiveMap.lookup n) ↔
      ¬ Silenced a b := by
  have habsorbed := exchange_absorbed ha hb hoa hob hab hba m choiceA choiceB
  dsimp only at habsorbed ⊢
  generalize exchange m choiceA choiceB a b = out at habsorbed ⊢
  obtain ⟨h₁, hspoken, hsilent⟩ := habsorbed
  constructor
  · intro hsame hsilenced
    obtain ⟨n, hn⟩ : ∃ n, 0 < a.engine.replica.dvv.effectiveCounter n := by
      by_contra hnone
      push Not at hnone
      exact hsilenced.2.2 (hpa.entries_eq_nil_iff.mpr fun n => Nat.le_zero.mp (hnone n))
    have hzero := hpb.entries_eq_nil_iff.mp hsilenced.2.1 n
    have hcounters : out.1.engine.replica.dvv.effectiveCounter n =
        out.2.engine.replica.dvv.effectiveCounter n := by
      have hlookup := hsame n
      rw [← DotVersionVector.counterAt_effectiveMap, ← DotVersionVector.counterAt_effectiveMap,
        counterAt, hlookup]
      rfl
    rw [h₁.effectiveCounter n, hsilent hsilenced, hzero] at hcounters
    omega
  · intro hnot n
    have h₂ := hspoken hnot
    have hp₁ := h₁.positive hpa hpb
    have hcounters : out.1.engine.replica.dvv.effectiveCounter n =
        out.2.engine.replica.dvv.effectiveCounter n := by
      rw [h₂.effectiveCounter n, h₁.effectiveCounter n]
      omega
    rw [hp₁.lookup_effectiveMap, (h₂.positive hpb hp₁).lookup_effectiveMap, hcounters]

end exchange

/-! ## The elements after an exchange -/

namespace Replica

/-- `q` has a tombstone for `d` that is news to `r`. -/
def News (q : Replica E idB) (r : Replica E idA) (d : Dot) : Prop :=
  ∃ rem, q.crdt.tombstones.lookup d = some rem ∧ rem ∉ r.dvv.known

/-- `r` has the add and no tombstone for it, once `q` has told it, or not, of the adds that it does
not know and of the removes that are news to it. -/
def Shows (told : Prop) (r : Replica E idA) (q : Replica E idB) (e : E) (d : Dot) : Prop :=
  d ∉ r.crdt.tombstones ∧ ¬ (told ∧ q.News r d) ∧
    (r.crdt.HasAdd e d ∨ told ∧ q.crdt.HasAdd e d ∧ d ∉ r.dvv.known)

/-- `r` shows the add, which `q` has a tombstone for, or does not have and is not told of. -/
def Overlooked (told told' : Prop) (r : Replica E idA) (q : Replica E idB) (e : E) (d : Dot) :
    Prop :=
  Shows told r q e d ∧ (d ∈ q.crdt.tombstones ∨ ¬ q.crdt.HasAdd e d ∧ ¬ (told' ∧ d ∉ q.dvv.known))

/-- No element depends on an overlooked add, or it does so on both sides. -/
def Agree (forced : Bool) (r : Replica E idA) (q : Replica E idB) : Prop :=
  ∀ e, (∃ d, Shows (Told forced r q) r q e d ∧ Shows (Told false q r) q r e d) ∨
    ((∃ d, Overlooked (Told forced r q) (Told false q r) r q e d) ↔
      ∃ d, Overlooked (Told false q r) (Told forced r q) q r e d)

variable {forced : Bool} {r r' : Replica E idA} {q q' : Replica E idB} {told told' : Prop} {e : E}
  {d : Dot}

omit [DecidableEq E] in
theorem News.mem (h : q.News r d) : d ∈ q.crdt.tombstones := by
  obtain ⟨rem, hrem, -⟩ := h
  exact AList.mem_of_lookup hrem

theorem overlooked_iff :
    Overlooked told told' r q e d ↔ Shows told r q e d ∧ ¬ Shows told' q r e d := by
  refine and_congr_right ?_
  rintro ⟨huntombed, -, hadd⟩
  constructor
  · rintro (htomb | ⟨hnot, huntold⟩) ⟨huntombed', -, hadd'⟩
    · exact huntombed' htomb
    · rcases hadd' with hadd' | ⟨htold, -, hunknown⟩
      · exact hnot hadd'
      · exact huntold ⟨htold, hunknown⟩
  · intro hnot
    by_contra hshown
    rw [not_or, not_and, not_not] at hshown
    refine hnot ⟨hshown.1, fun hnews => huntombed hnews.2.mem, ?_⟩
    by_cases hboth : q.crdt.HasAdd e d
    · exact Or.inl hboth
    · obtain ⟨htold, hunknown⟩ := hshown.2 hboth
      exact Or.inr ⟨htold, hadd.resolve_right fun h => hboth h.2.1, hunknown⟩

omit [DecidableEq E] in
theorem exists_mem_tombstones_deltaSince :
    (∃ rem, (d, rem) ∈ (q.crdt.deltaSince r.dvv.effectiveMap q.dvv).tombstones) ↔ q.News r d := by
  refine exists_congr fun rem => ?_
  rw [OrSet.mem_tombstones_deltaSince, DotVersionVector.counterAt_effectiveMap]
  exact and_congr_right fun _ => Nat.not_le.symm

theorem mem_adds_deltaSince_known :
    (e, d) ∈ (q.crdt.deltaSince r.dvv.effectiveMap q.dvv).adds ↔
    q.crdt.HasAdd e d ∧ d ∉ r.dvv.known := by
  rw [OrSet.mem_adds_deltaSince, DotVersionVector.counterAt_effectiveMap]
  exact and_congr_right fun _ => Nat.not_le.symm

section absorbed

variable (h : Absorbed forced r q r')
include h

theorem absorbed_tombstones : d ∈ r'.crdt.tombstones ↔
    Told forced r q ∧ q.News r d ∨ d ∈ r.crdt.tombstones := by
  rcases h with ⟨htold, -, hcrdt⟩ | ⟨hnot, -, hcrdt⟩
  · rw [hcrdt, OrSet.mem_tombstones_mergeDelta, exists_mem_tombstones_deltaSince,
      and_iff_right htold]
  · rw [hcrdt]
    exact (or_iff_right fun hsent => hnot hsent.1).symm

theorem absorbed_hasAdd : r'.crdt.HasAdd e d ↔
    r.crdt.HasAdd e d ∧ ¬ (Told forced r q ∧ q.News r d) ∨
    Told forced r q ∧ q.crdt.HasAdd e d ∧ d ∉ r.dvv.known ∧ d ∉ r'.crdt.tombstones := by
  rcases h with ⟨htold, -, hcrdt⟩ | ⟨hnot, -, hcrdt⟩
  · rw [hcrdt, OrSet.hasAdd_mergeDelta, mem_adds_deltaSince_known, ← not_exists,
      exists_mem_tombstones_deltaSince,
      and_iff_right htold, and_iff_right htold, and_assoc]
  · rw [hcrdt, or_iff_left fun hsent => hnot hsent.1, and_iff_left fun hsent => hnot hsent.1]

theorem mem_elements_absorbed : e ∈ r'.crdt.elements ↔ ∃ d, Shows (Told forced r q) r q e d := by
  rw [OrSet.mem_elements, OrSet.contains_iff]
  refine exists_congr fun d => ?_
  rw [absorbed_hasAdd h, absorbed_tombstones h, not_or]
  constructor
  · rintro ⟨⟨hadd, -⟩ | ⟨htold, hadd, hunknown, -⟩, hnews, huntombed⟩
    · exact ⟨huntombed, hnews, Or.inl hadd⟩
    · exact ⟨huntombed, hnews, Or.inr ⟨htold, hadd, hunknown⟩⟩
  · rintro ⟨huntombed, hnews, hadd | ⟨htold, hadd, hunknown⟩⟩
    · exact ⟨Or.inl ⟨hadd, hnews⟩, hnews, huntombed⟩
    · exact ⟨Or.inr ⟨htold, hadd, hunknown, hnews, huntombed⟩, hnews, huntombed⟩

theorem absorbed_lookup_of_notMem (hd : d ∉ q.crdt.tombstones) :
    r'.crdt.tombstones.lookup d = r.crdt.tombstones.lookup d := by
  rcases h with ⟨-, -, hcrdt⟩ | ⟨-, -, hcrdt⟩
  · rw [hcrdt, OrSet.tombstones_mergeDelta]
    exact AList.lookup_foldl_insert_of_notMem fun rem hrem =>
      hd (exists_mem_tombstones_deltaSince.mp ⟨rem, hrem⟩).mem
  · rw [hcrdt]

theorem told_absorbed : Told false q r' ↔ Told false q r := by
  unfold Told
  refine or_congr_right (exists_congr fun n => ?_)
  rw [h.effectiveCounter n]
  omega

theorem shows_absorbed : Shows (Told false q r') q r' e d ↔ Shows (Told false q r) q r e d := by
  unfold Shows
  rw [told_absorbed h]
  refine and_congr_right fun huntombed => ?_
  have hnews : r'.News q d ↔ r.News q d := by
    unfold News
    rw [absorbed_lookup_of_notMem h huntombed]
  rw [hnews]
  refine and_congr_right fun _ => ?_
  by_cases hadd : q.crdt.HasAdd e d
  · exact iff_of_true (Or.inl hadd) (Or.inl hadd)
  · have hkept : r'.crdt.HasAdd e d ↔ r.crdt.HasAdd e d := by
      rw [absorbed_hasAdd h, or_iff_left fun hsent => hadd hsent.2.1]
      exact and_iff_left fun hsent => huntombed hsent.2.mem
    rw [hkept]

end absorbed

/-- **Two replicas contain the same elements after an exchange exactly when** they agree before. -/
theorem exchanged_elements_iff (h : Absorbed forced r q r') (h' : Absorbed false q r' q') :
    (∀ e, e ∈ r'.crdt.elements ↔ e ∈ q'.crdt.elements) ↔ Agree forced r q := by
  refine forall_congr' fun e => ?_
  rw [mem_elements_absorbed h, mem_elements_absorbed h']
  simp only [shows_absorbed h, overlooked_iff]
  -- an add that one side shows is shown by both, or overlooked
  have hsplit : ∀ {P Q : Dot → Prop}, (∃ d, P d) ↔ (∃ d, P d ∧ Q d) ∨ ∃ d, P d ∧ ¬ Q d := by
    intro P Q
    rw [← exists_or]
    exact exists_congr fun d => by tauto
  rw [hsplit (P := fun d => Shows (Told forced r q) r q e d)
    (Q := fun d => Shows (Told false q r) q r e d),
    hsplit (P := fun d => Shows (Told false q r) q r e d)
      (Q := fun d => Shows (Told forced r q) r q e d)]
  simp only [and_comm (a := Shows (Told false q r) q r e _) (b := Shows (Told forced r q) r q e _)]
  generalize (∃ d, Shows (Told forced r q) r q e d ∧ Shows (Told false q r) q r e d) = both
  generalize (∃ d, Shows (Told forced r q) r q e d ∧ ¬ Shows (Told false q r) q r e d) = left
  generalize (∃ d, Shows (Told false q r) q r e d ∧ ¬ Shows (Told forced r q) r q e d) = right
  tauto

end Replica

/-! ## Requests on a delta -/

/-- A server that receives an empty request with a delta would have answered it. -/
def Swallowed (s : Server E id) (crdtId : String) (delta : OrSetDelta E) (origin : NodeId)
    (K : CausalContext) : Prop :=
  K.entries = [] ∧ crdtId = Server.crdtId ∧ origin ∈ s.registry ∧
    (s.engine.forced s.registry origin = true ∨
      ∃ n, 0 < max (s.engine.replica.dvv.effectiveCounter n)
        (delta.causalContext.effectiveCounter n))

/-- **A request on a delta is answered like the same request on its own, unless** it is empty and
has an answer. -/
theorem piggyback_answered_iff (s : Server E id) (hname : s.engine.crdtId = Server.crdtId)
    (hordered : s.engine.replica.dvv.Ordered) (m : EpochMetadata) (choice : Option NodeId)
    (crdtId : String) (delta : OrSetDelta E) (origin : NodeId) (K : CausalContext)
    (km : Option MatrixClock) (gcReplica : Bool) :
    (s.receive m choice [(id, .crdtOp crdtId delta origin (some K) km)]).2 =
        (s.receive m choice [(id, .crdtOp crdtId delta origin none km),
          (id, .crdtPullRequest crdtId gcReplica origin (some K))]).2 ↔
      ¬ Swallowed s crdtId delta origin K := by
  have hseparate : s.receive m choice [(id, .crdtOp crdtId delta origin none km),
      (id, .crdtPullRequest crdtId gcReplica origin (some K))] =
        (s.handle m choice (.deltaResponse origin crdtId delta km)).1.handle m choice
          (.deltaRequest origin crdtId K) := by
    rw [← Server.workOff_request, ← Server.workOff_delta]
    simp [Server.receive, handleReceivedEnvelope]
  rw [hseparate]
  by_cases hempty : K.entries = []
  swap
  · rw [s.receive_both_of_nonempty crdtId delta origin hempty]
    exact iff_of_true rfl fun h => hempty h.1
  rw [s.receive_both_of_empty crdtId delta origin hempty]
  obtain rfl : K = ∅ := AList.ext hempty
  set s₁ := (s.handle m choice (.deltaResponse origin crdtId delta km)).1 with hs₁
  have hname₁ : s₁.engine.crdtId = Server.crdtId := (s.handle_crdtId m choice _).trans hname
  have hforced : s₁.engine.forced s₁.registry origin = s.engine.forced s.registry origin := by
    unfold CrdtEngine.forced
    rw [hs₁, s.handle_gcReplica]
    rfl
  show [] = (s₁.handle m choice (.deltaRequest origin crdtId ∅)).2 ↔ _
  by_cases hid : crdtId = Server.crdtId
  swap
  · have hignored : (s₁.handle m choice (.deltaRequest origin crdtId ∅)).2 = [] := by
      show (s₁.engine.serverPullRequest s₁.registry origin crdtId ∅).2 = []
      unfold CrdtEngine.serverPullRequest
      rw [if_pos fun heq => hid (heq.trans hname₁)]
    exact iff_of_true hignored.symm fun h => hid h.2.1
  by_cases hreg : origin ∈ s.registry
  swap
  · have hsilent : (s₁.handle m choice (.deltaRequest origin crdtId ∅)).2 = [] :=
      s₁.engine.serverPullRequest_of_notMem s.registry origin ∅ hreg crdtId
    exact iff_of_true hsilent.symm fun h => hreg h.2.2.1
  subst hid
  have hmerged : s₁.engine.replica.dvv = s.engine.replica.dvv.merge delta.causalContext :=
    (s.merge_delta hname m choice origin delta km).1
  have hordered₁ : s₁.engine.replica.dvv.Ordered := by
    rw [hmerged]
    exact hordered.merge _
  have hanswer := (s₁.answers hname₁ hordered₁ m choice hreg ∅).2.2
  generalize (s₁.handle m choice (.deltaRequest origin Server.crdtId ∅)).2 = out at hanswer
  have hnot : ¬ ∃ n, s₁.engine.replica.dvv.effectiveCounter n < counterAt ∅ n := by
    rintro ⟨n, hn⟩
    rw [counterAt_empty] at hn
    exact Nat.not_lt_zero _ hn
  have hlearned : (∃ n, counterAt ∅ n < s₁.engine.replica.dvv.effectiveCounter n) ↔
      ∃ n, 0 < max (s.engine.replica.dvv.effectiveCounter n)
          (delta.causalContext.effectiveCounter n) := by
    refine exists_congr fun n => ?_
    rw [counterAt_empty, hmerged, DotVersionVector.effectiveCounter_merge]
  rw [hforced] at hanswer
  cases hanswer with
  | silent hdelta hask =>
    refine iff_of_true rfl ?_
    rintro ⟨-, -, -, hforced' | hknows⟩
    · rw [hforced'] at hdelta
      cases hdelta.1
    · obtain ⟨n, hn⟩ := hlearned.mpr hknows
      have := hdelta.2 n
      omega
  | request hdelta hask gcReplica => exact absurd hask hnot
  | delta hdelta hask km =>
    refine iff_of_false (fun h => by cases h) fun h => h ⟨rfl, rfl, hreg, ?_⟩
    exact hdelta.imp_right hlearned.mp
  | both hdelta hask km => exact absurd hask hnot

/-! ## Runs -/

namespace Cluster

variable {c : Cluster E}

/-- What is asked of an exchange: both know the same, and contain the same. -/
structure Synchronised (r : Replica E idA) (q : Replica E idB) : Prop where
  knowledge : ∀ n, r.dvv.effectiveMap.lookup n = q.dvv.effectiveMap.lookup n
  elements : ∀ e, e ∈ r.crdt.elements ↔ e ∈ q.crdt.elements

theorem not_overlooked {G : Set Dot} {r : Replica E idA} {q : Replica E idB} (forced : Bool)
    (told' : Prop) (hu : ObservedRemove.UniqueDots (events c))
    (hr : Faithful (events c) G (r.crdt.view r.dvv.known))
    (hq : Faithful (events c) G (q.crdt.view q.dvv.known))
    (hG : ∀ d ∈ G, Gone (events c) r.dvv.known d)
    (htold' : (∃ n, q.dvv.effectiveCounter n < r.dvv.effectiveCounter n) → told') (e : E)
    (d : Dot) :
    ¬ Replica.Overlooked (Told forced r q) told' r q e d := by
  -- a tombstone of `q` for an add that `r` shows is news to `r`
  have huntombed : Live (events c) r.dvv.known e d → ¬ (Told forced r q ∧ q.News r d) →
      d ∉ q.crdt.tombstones := by
    intro hlive hnews htomb
    obtain ⟨rem, hrem⟩ := AList.mem_iff_lookup.mp htomb
    obtain ⟨hknown, e', hadded, hremoves⟩ := hq.tomb_sound d rem hrem
    have hnew : rem ∉ r.dvv.known := fun hold => hlive.not_gone hu ⟨e', hadded, rem, hold, hremoves⟩
    refine hnews ⟨Or.inr ⟨rem.nodeId, ?_⟩, rem, hrem, hnew⟩
    exact Nat.lt_of_lt_of_le (Nat.not_le.mp hnew) hknown
  rintro ⟨⟨-, hnews, hadd⟩, hnot⟩
  by_cases hboth : q.crdt.HasAdd e d
  · have htomb := hnot.resolve_right fun h => h.1 hboth
    have hlive : Live (events c) q.dvv.known e d := (hq.adds_iff e d).mp hboth
    exact hlive.not_gone hu (hq.tomb_sound.gone ((OrSet.tombstoned_view _).mpr htomb))
  · have hlive : Live (events c) r.dvv.known e d :=
      (hr.adds_iff e d).mp (hadd.resolve_right fun h => hboth h.2.1)
    have hnone := huntombed hlive hnews
    have huntold := (hnot.resolve_left hnone).2
    have hknown : d ∈ q.dvv.known := by
      by_contra hunknown
      refine huntold ⟨htold' ⟨d.nodeId, ?_⟩, hunknown⟩
      exact Nat.lt_of_lt_of_le (Nat.not_le.mp hunknown) hlive.2.1
    have hgone : Gone (events c) q.dvv.known d := by
      by_contra hstays
      refine hboth ((hq.adds_iff e d).mpr ⟨hlive.1, hknown, fun rem hrem hremoves => ?_⟩)
      exact hstays ⟨e, hlive.1, rem, hrem, hremoves⟩
    rcases hq.tomb_complete d hgone with htomb | hmem
    · exact hnone ((OrSet.tombstoned_view _).mp htomb)
    · exact hlive.not_gone hu (hG d hmem)

theorem Reclaiming.agree (h : Reclaiming c) {k : Core E idA} {k' : Core E idB}
    (hk : c.core idA = some k) (hk' : c.core idB = some k') (forced : Bool) :
    Replica.Agree forced k.replica k'.replica := by
  have hr := h.replicated.faithful idA k hk
  have hq := h.replicated.faithful idB k' hk'
  have hleft := not_overlooked forced (Told false k'.replica k.replica) h.replicated.unique hr hq
    (fun d hd => hd idA k hk) Or.inr
  have hright := not_overlooked false (Told forced k.replica k'.replica) h.replicated.unique hq hr
    (fun d hd => hd idB k' hk') Or.inr
  intro e
  exact Or.inr (iff_of_false (fun ⟨d, hd⟩ => hleft e d hd) fun ⟨d, hd⟩ => hright e d hd)

section reached

variable {ok : Cluster E → Label E → Prop} {members : HashMap NodeId Bool} {a : Server E idA}
  {b : Server E idB} (h : Reachable Cluster.step ok (fixed members) c)
  (ha : c.nodes.lookup idA = some a) (hb : c.nodes.lookup idB = some b) (hab : idA ∈ b.registry)
  (hba : idB ∈ a.registry) (m : EpochMetadata) (choiceA choiceB : Option NodeId)
include h ha hb hab hba

theorem reached_knowledge_iff :
    let out := exchange m choiceA choiceB a b
    (∀ n, out.1.engine.replica.dvv.effectiveMap.lookup n =
      out.2.engine.replica.dvv.effectiveMap.lookup n) ↔
      ¬ Silenced a b := by
  have hregular := regular_of_reachable h
  have hpositive := positive_of_reachable h
  exact exchange_knowledge_iff (hregular.named idA a ha) (hregular.named idB b hb)
    (hregular.ordered ha)
    (hregular.ordered hb) hab hba m choiceA choiceB
      (hpositive.replicas idA a.core (c.core_of_lookup ha))
    (hpositive.replicas idB b.core (c.core_of_lookup hb))

theorem reached_synchronised_iff :
    let out := exchange m choiceA choiceB a b
    Synchronised out.1.engine.replica out.2.engine.replica ↔ ¬ Silenced a b ∧
      Replica.Agree (b.engine.forced b.registry idA) a.engine.replica b.engine.replica := by
  have hknowledge := reached_knowledge_iff h ha hb hab hba m choiceA choiceB
  have hregular := regular_of_reachable h
  have habsorbed :=
    exchange_absorbed (hregular.named idA a ha) (hregular.named idB b hb) (hregular.ordered ha)
    (hregular.ordered hb) hab hba m choiceA choiceB
  dsimp only at hknowledge habsorbed ⊢
  generalize exchange m choiceA choiceB a b = out at hknowledge habsorbed ⊢
  obtain ⟨hfirst, hsecond, -⟩ := habsorbed
  constructor
  · rintro ⟨hsame, helements⟩
    have hspoken := hknowledge.mp hsame
    exact ⟨hspoken, (Replica.exchanged_elements_iff hfirst (hsecond hspoken)).mp helements⟩
  · rintro ⟨hspoken, hagree⟩
    exact ⟨hknowledge.mpr hspoken,
      (Replica.exchanged_elements_iff hfirst (hsecond hspoken)).mpr hagree⟩

end reached

/-- The GC replicas meet, and `G` adds `x`. -/
def oneAdds : List (Label String) := [.connect "G" "H" true, .connect "H" "G" true] ++ operate "G"

/-- The two servers list each other, and `check` holds of them. -/
def compareGH (c : Cluster String) (check : Server String "G" → Server String "H" → Bool) : Bool :=
  (c.nodes.lookup "G").any fun a => (c.nodes.lookup "H").any fun b =>
    decide ("G" ∈ b.registry) && decide ("H" ∈ a.registry) && check a b

theorem compareGH_eq_true {c : Cluster String}
    {check : Server String "G" → Server String "H" → Bool} (h : compareGH c check = true) :
    ∃ a b, c.nodes.lookup "G" = some a ∧ c.nodes.lookup "H" = some b ∧
      "G" ∈ b.registry ∧ "H" ∈ a.registry ∧ check a b = true := by
  obtain ⟨a, ha, h⟩ := (Option.any_eq_true _ _).mp h
  obtain ⟨b, hb, h⟩ := (Option.any_eq_true _ _).mp h
  simp only [Bool.and_eq_true, decide_eq_true_eq] at h
  exact ⟨a, b, ha, hb, h.1.1, h.1.2, h.2⟩

end Cluster

end ExperimentalCrdt
