import ExperimentalCrdt.Cluster.Servers
import ExperimentalCrdt.Cluster.Epochs
import Mathlib.Data.Prod.Lex

/-!
# Whether a converged cluster goes quiet

Every delivery can create new messages: a request is answered by a delta or by a request, and a
merged delta is followed by a push to some peer. A delta that teaches its receiver something brings
the cluster closer to a bound on what can be known. While nobody learns anything, every handled
message is replaced by lighter ones: a push carries exactly what its sender knows, so it is answered
by a delta that teaches something, by a request that will be answered so, or not at all
(`Standing.requestWeight`).

A GC replica that lists its peer as a GC replica answers it with a delta even when there is nothing
to send. When the peer can push to it, the two never stop (`Echo.never_halts`,
`gc_replicas_never_quiet`). Without such a pair every sequence of deliveries is finite, from any
state and with any messages in flight (`goes_quiet`).
-/

namespace ExperimentalCrdt

open Transition (Reachable replay reachable_of_replay Halts halts_of_descent not_halts_of_loop)

variable {E : Type} {id : NodeId}

/-! ## Weights -/

/-- How the replicas stand to each other while nobody learns anything: what everybody knows, and who
always answers whom with a delta. -/
structure Standing where
  knowledge : NodeId → NodeId → Nat
  forced : NodeId → NodeId → Bool

namespace Standing

open Classical in
/-- A request that carries what its sender knows weighs more than what answers it: nothing among
equals, a delta that teaches something when the receiver is ahead, and otherwise a request in the
other direction. -/
noncomputable def requestWeight (st : Standing) (dst fromNode : NodeId) (K : CausalContext) : Nat :=
  if st.forced dst fromNode = true ∨ ∃ n, counterAt K n ≠ st.knowledge fromNode n then 8
  else if ∃ n, st.knowledge fromNode n < st.knowledge dst n then 2
  else if ∃ n, st.knowledge dst n < st.knowledge fromNode n then 3
  else 1

/-- A delta for the set of `dst` that counts something `dst` does not know. -/
def Teaches (st : Standing) (dst : NodeId) : CrdtEngineRequest E → Prop
  | .deltaResponse _ crdtId delta _ =>
    crdtId = Server.crdtId ∧ ∃ n, st.knowledge dst n < delta.causalContext.effectiveCounter n
  | _ => False

noncomputable def weight (st : Standing) (dst : NodeId) : CrdtEngineRequest E → Nat
  | .deltaRequest fromNode _ K => st.requestWeight dst fromNode K
  | .deltaResponse _ _ _ _ => 4
  | _ => 0

open Classical in
/-- The weight of a queue. What waits behind a delta that teaches something weighs nothing. -/
noncomputable def weigh (st : Standing) (dst : NodeId) : List (CrdtEngineRequest E) → Nat
  | [] => 0
  | req :: rest => if st.Teaches dst req then 1 else st.weight dst req + st.weigh dst rest

/-- The weight of envelopes on their way. -/
noncomputable def weighOutbox (st : Standing) (outbox : Outbox E) : Nat :=
  (outbox.map fun m => st.weigh m.1 (handleReceivedEnvelope m.2)).sum

variable (st : Standing) (dst fromNode : NodeId)

theorem requestWeight_pos (K : CausalContext) : 0 < st.requestWeight dst fromNode K := by
  unfold requestWeight
  split_ifs <;> omega

section fresh

variable {K : CausalContext} (hforced : st.forced dst fromNode = false)
  (hfresh : ∀ n, counterAt K n = st.knowledge fromNode n)
include hforced hfresh

theorem requestWeight_le : st.requestWeight dst fromNode K ≤ 3 := by
  unfold requestWeight
  rw [if_neg (by simp [hforced, hfresh])]
  split_ifs <;> omega

theorem requestWeight_of_ahead (h : ∃ n, st.knowledge fromNode n < st.knowledge dst n) :
    st.requestWeight dst fromNode K = 2 := by
  unfold requestWeight
  rw [if_neg (by simp [hforced, hfresh]), if_pos h]

theorem requestWeight_of_behind (hle : ∀ n, st.knowledge dst n ≤ st.knowledge fromNode n)
    (h : ∃ n, st.knowledge dst n < st.knowledge fromNode n) :
    st.requestWeight dst fromNode K = 3 := by
  have hnot : ¬ ∃ n, st.knowledge fromNode n < st.knowledge dst n := by
    rintro ⟨n, hn⟩
    have := hle n
    omega
  unfold requestWeight
  rw [if_neg (by simp [hforced, hfresh]), if_neg hnot, if_pos h]

end fresh

theorem weigh_append_le (xs ys : List (CrdtEngineRequest E)) :
    st.weigh dst (xs ++ ys) ≤ st.weigh dst xs + st.weigh dst ys := by
  induction xs with
  | nil => simp [weigh]
  | cons x xs ih =>
    rw [List.cons_append, weigh, weigh]
    split
    · omega
    · omega

theorem weigh_request (crdtId : String) (K : CausalContext) :
    st.weigh (E := E) dst [.deltaRequest fromNode crdtId K] = st.requestWeight dst fromNode K := by
  have hnot : ¬ st.Teaches (E := E) dst (.deltaRequest fromNode crdtId K) := fun h => h
  rw [weigh, if_neg hnot, weight, weigh, Nat.add_zero]

theorem weigh_delta (crdtId : String) (delta : OrSetDelta E)
    (requesterKnowledge : Option CausalContext) (km : Option MatrixClock)
    (hreq : ∀ K, requesterKnowledge = some K →
      st.requestWeight dst fromNode K ≤ 3) :
    st.weigh dst (handleReceivedEnvelope (.crdtOp crdtId delta fromNode requesterKnowledge km)) ≤
      7 ∧
      (st.Teaches dst (.deltaResponse fromNode crdtId delta km) →
        st.weigh dst
          (handleReceivedEnvelope (.crdtOp crdtId delta fromNode requesterKnowledge km)) ≤ 1) := by
  obtain ⟨rest, hrest, hle⟩ : ∃ rest, handleReceivedEnvelope
      (.crdtOp crdtId delta fromNode requesterKnowledge km) =
        .deltaResponse fromNode crdtId delta km :: rest ∧
      st.weigh dst rest ≤ 3 := by
    cases requesterKnowledge with
    | none => exact ⟨[], rfl, Nat.zero_le _⟩
    | some K =>
      by_cases hempty : K.entries.isEmpty = true
      · exact ⟨[], by rw [handleReceivedEnvelope, if_pos hempty], Nat.zero_le _⟩
      · refine ⟨[.deltaRequest fromNode crdtId K],
          by rw [handleReceivedEnvelope, if_neg hempty], ?_⟩
        rw [weigh_request]
        exact hreq K rfl
  rw [hrest, weigh, weight]
  constructor
  · split
    · omega
    · omega
  · intro hteaches
    rw [if_pos hteaches]

theorem weighOutbox_push {registry : PeerRegistry} (choice : Option NodeId) (crdtId : String)
    (gcReplica : Bool) {K : CausalContext} (hforced : ∀ b ∈ registry, st.forced b fromNode = false)
    (hfresh : ∀ n, counterAt K n = st.knowledge fromNode n) :
    st.weighOutbox (E := E)
      (PushPull.pushVersionVector registry choice fromNode crdtId gcReplica K) ≤ 3 := by
  unfold PushPull.pushVersionVector
  cases choice with
  | none => exact Nat.zero_le _
  | some b =>
    dsimp only
    unfold PushPull.sendToPeer
    split
    · next hb =>
      show st.weigh b [CrdtEngineRequest.deltaRequest fromNode crdtId K] + 0 ≤ 3
      rw [weigh_request, Nat.add_zero]
      exact st.requestWeight_le b fromNode (hforced b hb) hfresh
    · exact Nat.zero_le _

theorem weighOutbox_respond (registry : PeerRegistry) (crdtId : String) (origin : NodeId)
    (payload : Option (OrSetDelta E)) (gcReplica : Bool) (km : Option MatrixClock)
    (ours : Option CausalContext) (hours : ∀ K, ours = some K → st.requestWeight dst origin K ≤ 3) :
    let out := PushPull.respondToPullRequest registry dst crdtId origin payload gcReplica km ours
    st.weighOutbox out ≤ 7 ∧
      (payload = none → ∀ w, (∀ K, ours = some K → st.requestWeight dst origin K ≤ w) →
        st.weighOutbox out ≤ w) ∧
      (∀ delta, payload = some delta → st.Teaches dst (.deltaResponse origin crdtId delta km) →
        st.weighOutbox out ≤ 1) := by
  intro out
  have hsend : ∀ envelope w, st.weigh dst (handleReceivedEnvelope envelope) ≤ w →
      st.weighOutbox (E := E) (PushPull.sendToPeer registry dst envelope) ≤ w := by
    intro envelope w hw
    unfold PushPull.sendToPeer
    split
    · show st.weigh dst (handleReceivedEnvelope envelope) + 0 ≤ w
      omega
    · exact Nat.zero_le _
  cases payload with
  | none =>
    have hout : ∀ w, (∀ K, ours = some K → st.requestWeight dst origin K ≤ w) →
        st.weighOutbox out ≤ w := by
      intro w hw
      cases ours with
      | none => exact Nat.zero_le _
      | some K =>
        apply hsend
        show st.weigh dst [CrdtEngineRequest.deltaRequest origin crdtId K] ≤ w
        rw [weigh_request]
        exact hw K rfl
    refine ⟨?_, fun _ => hout, fun delta hdelta => by cases hdelta⟩
    have := hout 3 hours
    omega
  | some delta =>
    have hdelta := st.weigh_delta dst origin crdtId delta ours km hours
    have hout : out = PushPull.sendToPeer registry dst (.crdtOp crdtId delta origin ours km) := by
      cases ours <;> rfl
    rw [hout]
    refine ⟨hsend _ _ hdelta.1, fun hnone => (by cases hnone), fun delta' heq hteaches => ?_⟩
    cases heq
    exact hsend _ _ (hdelta.2 hteaches)

end Standing

/-! ## Working off a message -/

theorem CrdtEngine.effectiveCounter_serverDelta [DecidableEq E] (self : CrdtEngine E id)
    (registry : PeerRegistry) (choice : Option NodeId) {crdtId : String} (delta : OrSetDelta E)
    (km : Option MatrixClock) (hid : crdtId = self.crdtId) (n : NodeId) :
    (self.serverDelta registry choice crdtId delta km).1.replica.dvv.effectiveCounter n =
      max (self.replica.dvv.effectiveCounter n) (delta.causalContext.effectiveCounter n) := by
  unfold serverDelta
  rw [if_neg (not_not.mpr hid), ← DotVersionVector.effectiveCounter_merge]
  cases km <;> rfl

section answers

variable [DecidableEq E] {st : Standing} {s : Server E id}

/-- **The answer to a request weighs less than the request.** -/
theorem weighOutbox_answer (hname : s.engine.crdtId = Server.crdtId)
    (hordered : s.engine.replica.dvv.Ordered)
    (hknows : ∀ n, st.knowledge id n = s.engine.replica.dvv.effectiveCounter n)
    (hself : ∀ b, st.forced id b = s.engine.forced s.registry b)
    (hforced : ∀ b ∈ s.registry, st.forced b id = false) (fromNode : NodeId) (crdtId : String)
    (K : CausalContext) :
    st.weighOutbox (s.engine.serverPullRequest s.registry fromNode crdtId K).2 <
      st.requestWeight id fromNode K := by
  have hpos := st.requestWeight_pos id fromNode K
  by_cases hreg : fromNode ∈ s.registry
  swap
  · rw [s.engine.serverPullRequest_of_notMem s.registry fromNode K hreg crdtId]
    exact hpos
  unfold CrdtEngine.serverPullRequest
  split
  · exact hpos
  dsimp only
  set engine := s.engine.learnMatrix ((∅ : MatrixClock).insert fromNode K) with hengine
  -- a request in the answer carries what `id` knows
  have hours : ∀ K', engine.ourKnowledgeRequest K = some K' →
      ∀ n, counterAt K' n = st.knowledge id n := by
    intro K' hK' n
    rw [engine.ourKnowledgeRequest_eq_some K hK', DotVersionVector.counterAt_effectiveMap, hknows]
    rfl
  have hback := hforced fromNode hreg
  obtain ⟨hall, hrequest, hdelta⟩ := st.weighOutbox_respond fromNode s.registry s.engine.crdtId id
    (engine.deltaPayload s.registry fromNode K) engine.replica.gc.gcReplica
    (if CrdtEngine.isGcPeer s.registry fromNode = true
      then engine.replica.gc.getKnowledgeMatrix s.registry
      else none) (engine.ourKnowledgeRequest K)
    fun K' hK' => st.requestWeight_le fromNode id hback (hours K' hK')
  by_cases hstale : st.forced id fromNode = true ∨ ∃ n, counterAt K n ≠ st.knowledge fromNode n
  · have hweight : st.requestWeight id fromNode K = 8 := if_pos hstale
    omega
  push Not at hstale
  obtain ⟨hunforced, hfresh⟩ := hstale
  have hunforced : st.forced id fromNode = false := Bool.eq_false_iff.mpr hunforced
  have hcompared : ∀ n, engine.replica.dvv.comparedCounter n = st.knowledge id n := fun n =>
    (hordered.comparedCounter n).trans (hknows n).symm
  have hnone := engine.deltaPayload_eq_none_iff s.registry fromNode K
  by_cases hahead : ∃ n, st.knowledge fromNode n < st.knowledge id n
  · -- the delta teaches something
    have hweight := st.requestWeight_of_ahead id fromNode hunforced hfresh hahead
    obtain ⟨n, hn⟩ := hahead
    cases hpayload : engine.deltaPayload s.registry fromNode K with
    | none =>
      have hle := (hnone.mp hpayload).2 n
      rw [hcompared, hfresh] at hle
      omega
    | some delta =>
      have hteaches := hdelta delta hpayload ⟨hname, n, by
        rw [engine.deltaPayload_eq_some s.registry fromNode K hpayload,
          OrSet.effectiveCounter_causalContext]
        exact Nat.lt_of_lt_of_eq hn (hknows n)⟩
      rw [hpayload] at hteaches
      omega
  · push Not at hahead
    have hpayload : engine.deltaPayload s.registry fromNode K = none := by
      refine hnone.mpr ⟨(hself fromNode).symm.trans hunforced, fun n => ?_⟩
      rw [hcompared, hfresh]
      exact hahead n
    by_cases hbehind : ∃ n, st.knowledge id n < st.knowledge fromNode n
    · -- the answer asks for what the sender of the request knows
      have hweight := st.requestWeight_of_behind id fromNode hunforced hfresh hahead hbehind
      have hle := hrequest hpayload 2 fun K' hK' =>
        (st.requestWeight_of_ahead fromNode id hback (hours K' hK') hbehind).le
      omega
    · push Not at hbehind
      have hquiet := hrequest hpayload 0 fun K' hK' => by
        have hours := (engine.ourKnowledgeRequest_eq_none_iff K).mpr fun n => by
          rw [hfresh]
          exact Nat.le_trans (hbehind n) (hknows n).le
        rw [hours] at hK'
        cases hK'
      omega

/-- **A delta that teaches nothing is followed by a push at most.** -/
theorem weighOutbox_merge (hname : s.engine.crdtId = Server.crdtId)
    (hknows : ∀ n, st.knowledge id n = s.engine.replica.dvv.effectiveCounter n)
    (hforced : ∀ b ∈ s.registry, st.forced b id = false) (choice : Option NodeId)
    (fromNode : NodeId) (crdtId : String) (delta : OrSetDelta E) (km : Option MatrixClock)
    (hteaches : ¬ st.Teaches id (.deltaResponse fromNode crdtId delta km)) :
    (∀ n, (s.engine.serverDelta s.registry choice crdtId delta km).1.replica.dvv.effectiveCounter
      n =
        s.engine.replica.dvv.effectiveCounter n) ∧
      st.weighOutbox (s.engine.serverDelta s.registry choice crdtId delta km).2 ≤ 3 := by
  by_cases hid : crdtId = s.engine.crdtId
  · have hsame : ∀ n,
        (s.engine.serverDelta s.registry choice crdtId delta km).1.replica.dvv.effectiveCounter n =
        s.engine.replica.dvv.effectiveCounter n := by
      intro n
      rw [s.engine.effectiveCounter_serverDelta s.registry choice delta km hid, ← hknows]
      exact max_eq_left (Nat.le_of_not_lt fun hlt => hteaches ⟨hid.trans hname, n, hlt⟩)
    refine ⟨hsame, ?_⟩
    have hpush := st.weighOutbox_push (E := E) id choice s.engine.crdtId
      (s.engine.serverDelta s.registry choice crdtId delta km).1.replica.gc.gcReplica
          hforced fun n => by
        rw [DotVersionVector.counterAt_effectiveMap, hsame, ← hknows]
    unfold CrdtEngine.serverDelta at hpush ⊢
    rw [if_neg (not_not.mpr hid)] at hpush ⊢
    exact hpush
  · unfold CrdtEngine.serverDelta
    rw [if_pos hid]
    exact ⟨fun _ => rfl, Nat.zero_le _⟩

end answers

/-! ## The cluster while messages are delivered -/

/-- The steps that go on while clients and timers are silent: envelopes arrive, and engines work off
their queues. -/
def Label.Delivers : Label E → Prop
  | .receive _ | .handle _ _ => True
  | _ => False

theorem CrdtEngine.serverPullRequest_of_forced [DecidableEq E] (self : CrdtEngine E id)
    {registry : PeerRegistry} {crdtId : String} (hname : crdtId = self.crdtId) {fromNode : NodeId}
    (hforced : self.forced registry fromNode = true) {K : CausalContext}
    (hK : ∀ n, counterAt K n ≤ self.replica.dvv.effectiveCounter n) :
    ∃ km, (self.serverPullRequest registry fromNode crdtId K).2 =
      [(fromNode, .crdtOp crdtId (self.replica.crdt.deltaSince K self.replica.dvv)
        id none km)] := by
  have hreg : fromNode ∈ registry := by
    unfold forced isGcPeer at hforced
    cases hlookup : registry.lookup fromNode with
    | none =>
      rw [hlookup] at hforced
      simp at hforced
    | some gcReplica => exact AList.mem_of_lookup hlookup
  unfold serverPullRequest
  rw [if_neg (not_not.mpr hname)]
  dsimp only
  set engine := self.learnMatrix ((∅ : MatrixClock).insert fromNode K) with hengine
  have hours : engine.ourKnowledgeRequest K = none :=
    (engine.ourKnowledgeRequest_eq_none_iff K).mpr hK
  cases hpayload : engine.deltaPayload registry fromNode K with
  | none =>
    have hunforced := ((engine.deltaPayload_eq_none_iff registry fromNode K).mp hpayload).1
    rw [show engine.forced registry fromNode = true from hforced] at hunforced
    cases hunforced
  | some delta =>
    rw [engine.deltaPayload_eq_some registry fromNode K hpayload, hours, ← hname]
    unfold PushPull.respondToPullRequest PushPull.sendToPeer
    dsimp only
    rw [if_pos hreg]
    exact ⟨_, rfl⟩

theorem CrdtEngine.serverDelta_push [DecidableEq E] (self : CrdtEngine E id)
    {registry : PeerRegistry} {crdtId : String} (hname : crdtId = self.crdtId) {peer : NodeId}
    (hpeer : peer ∈ registry) (delta : OrSetDelta E) (km : Option MatrixClock) :
    ∃ gcReplica, (self.serverDelta registry (some peer) crdtId delta km).2 =
      [(peer, .crdtPullRequest crdtId gcReplica id
        (some (self.serverDelta registry (some peer) crdtId delta
          km).1.replica.dvv.effectiveMap))] := by
  unfold serverDelta
  rw [if_neg (not_not.mpr hname), ← hname]
  dsimp only
  unfold PushPull.onPostMerge PushPull.pushVersionVector PushPull.sendToPeer
  dsimp only
  rw [if_pos hpeer]
  exact ⟨_, rfl⟩

/-- `b` asks for what is above `K`. -/
def Envelope.pulls (b : NodeId) (K : CausalContext) : Envelope E → Bool
  | .crdtPullRequest crdtId _ originNodeId (some knowledge) =>
    crdtId == Server.crdtId && originNodeId == b && knowledge.entries == K.entries
  | _ => false

theorem Envelope.received_of_pulls {b : NodeId} {K : CausalContext} {envelope : Envelope E}
    (h : envelope.pulls b K = true) :
    handleReceivedEnvelope envelope = [.deltaRequest b Server.crdtId K] := by
  unfold pulls at h
  split at h
  · next crdtId gcReplica originNodeId knowledge =>
    simp only [Bool.and_eq_true, beq_iff_eq] at h
    obtain ⟨⟨rfl, rfl⟩, hentries⟩ := h
    obtain rfl := AList.ext hentries
    rfl
  · cases h

theorem exists_upperBound (l : List CausalContext) :
    ∃ U : CausalContext, ∀ K ∈ l, ∀ n, counterAt K n ≤ counterAt U n := by
  induction l with
  | nil => exact ⟨∅, fun K hK => by cases hK⟩
  | cons K l ih =>
    obtain ⟨U, hU⟩ := ih
    refine ⟨K.foldl (fun out n v => out.upsert n fun e => max (e.getD 0) v) U, fun K' hK' n => ?_⟩
    have hmax : counterAt (K.foldl (fun out n v => out.upsert n fun e => max (e.getD 0) v) U) n =
        max (counterAt U n) (counterAt K n) := by
      refine AList.foldl_max K _ (counterAt · n) n (fun s k v => ?_) U
      exact counterAt_upsert_max s k n v
    rw [hmax]
    rcases List.mem_cons.mp hK' with rfl | hK'
    · exact Nat.le_max_right _ _
    · exact Nat.le_trans (hU K' hK' n) (Nat.le_max_left _ _)

/-- What a merge of the carried delta adds to a vector. -/
def CrdtEngineRequest.carried : CrdtEngineRequest E → Option CausalContext
  | .deltaResponse _ _ delta _ => some delta.causalContext.effectiveMap
  | _ => none

/-- Everything that somebody knows or may learn. -/
def Cluster.contexts (c : Cluster E) : List CausalContext :=
  (c.nodes.entries.flatMap fun e =>
      e.2.engine.replica.dvv.effectiveMap :: e.2.engine.rx.filterMap CrdtEngineRequest.carried) ++
    c.network.flatMap fun p => (handleReceivedEnvelope p.envelope).filterMap
      CrdtEngineRequest.carried

namespace Server

variable (s : Server E id)

/-- How many requests of timers and clients wait in the queue. -/
def localRequests : Nat := s.engine.rx.countP fun req => decide (Cluster.Local req)

/-- What the replica has left to learn below `U`. -/
def slack (U : CausalContext) : Nat :=
  U.sumBy fun n v => v - s.engine.replica.dvv.effectiveCounter n

/-- The server runs and waits for a message. -/
def atRest : Bool :=
  match s.engine.task, s.engine.rx, s.shutdown with
  | .idle, [], .running => true
  | _, _, _ => false

theorem atRest_iff : s.atRest = true ↔ s.engine.task = .idle ∧ s.engine.rx = [] ∧
    s.shutdown = .running := by
  unfold atRest
  split
  · next htask hrx hphase => exact iff_of_true rfl ⟨htask, hrx, hphase⟩
  · next hother =>
      exact iff_of_false Bool.false_ne_true fun ⟨htask, hrx, hphase⟩ => hother htask hrx hphase

variable {s} {s' : Server E id} (heff : ∀ n, s.engine.replica.dvv.effectiveCounter n ≤
  s'.engine.replica.dvv.effectiveCounter n)
include heff

theorem slack_le (U : CausalContext) : s'.slack U ≤ s.slack U :=
  AList.sumBy_le fun n v _ => Nat.sub_le_sub_left (heff n) v

theorem slack_lt {U : CausalContext} {n : NodeId}
    (hlearned : s.engine.replica.dvv.effectiveCounter n <
      s'.engine.replica.dvv.effectiveCounter n)
      (hbound : s'.engine.replica.dvv.effectiveCounter n ≤ counterAt U n) :
    s'.slack U < s.slack U := by
  obtain ⟨v, hv⟩ :=
    AList.mem_iff_lookup.mp (mem_of_counterAt_pos (Nat.lt_of_le_of_lt (Nat.zero_le _)
    (Nat.lt_of_lt_of_le hlearned hbound)))
  rw [counterAt_of_lookup hv] at hbound
  refine AList.sumBy_lt (fun n v _ => Nat.sub_le_sub_left (heff n) v) hv ?_
  omega

end Server

namespace Cluster

/-- No replica that always answers a peer with a delta can be pushed to by that peer. -/
def NoForcedPair (c : Cluster E) : Prop :=
  ∀ a b (sa : Server E a) (sb : Server E b), c.nodes.lookup a = some sa →
    c.nodes.lookup b = some sb →
    sa.engine.forced sa.registry b = true → a ∉ sb.registry

instance (c : Cluster E) : Decidable (NoForcedPair c) :=
  decidable_of_iff (∀ e ∈ c.nodes.entries, ∀ e' ∈ c.nodes.entries,
    e.2.engine.forced e.2.registry e'.1 = true → e.1 ∉ e'.2.registry) <| by
    rw [← AList.forall_lookup_iff (P := fun a (sa : Server E a) => ∀ e' ∈ c.nodes.entries,
      sa.engine.forced sa.registry e'.1 = true → a ∉ e'.2.registry)]
    constructor
    · intro h a b sa sb ha hb
      exact h a sa ha ⟨b, sb⟩ (AList.mem_lookup_iff.mp hb)
    · intro h a sa ha e' he'
      exact h a e'.1 sa e'.2 ha (AList.mem_lookup_iff.mpr he')

def standing (c : Cluster E) : Standing where
  knowledge id n := (c.nodes.lookup id).elim 0 fun s => s.engine.replica.dvv.effectiveCounter n
  forced id peer := (c.nodes.lookup id).elim false fun s => s.engine.forced s.registry peer

def localRequests (c : Cluster E) : Nat := c.nodes.sumBy fun _ s => s.localRequests

def slack (U : CausalContext) (c : Cluster E) : Nat := c.nodes.sumBy fun _ s => s.slack U

/-- The weight of all queues and of all envelopes. -/
noncomputable def traffic (st : Standing) (c : Cluster E) : Nat :=
  c.nodes.sumBy (fun id s => st.weigh id s.engine.rx) +
    (c.network.map fun p => st.weigh p.dst (handleReceivedEnvelope p.envelope)).sum

/-- Everything there is to know is below `U`. -/
structure BoundedBy (U : CausalContext) (c : Cluster E) : Prop where
  replicas : ∀ id k, c.core id = some k → ∀ n, k.replica.dvv.effectiveCounter n ≤ counterAt U n
  deltas : ∀ dst fromNode crdtId delta km, c.Pending dst (.deltaResponse fromNode crdtId delta km) →
    ∀ n, delta.causalContext.effectiveCounter n ≤ counterAt U n

/-- The measure: first what is left to learn, then the weight of the traffic, then the envelopes in
flight. -/
noncomputable def rank (U : CausalContext) (c : Cluster E) : Nat ×ₗ Nat ×ₗ Nat :=
  toLex (c.slack U, toLex (c.traffic c.standing, c.network.length))

variable {c c' : Cluster E} {U : CausalContext}

theorem rank_lt_of_slack (h : c'.slack U < c.slack U) : c'.rank U < c.rank U :=
  Prod.Lex.toLex_lt_toLex.mpr (Or.inl h)

theorem rank_lt_of_traffic (hslack : c'.slack U = c.slack U)
    (h : c'.traffic c'.standing < c.traffic c.standing) : c'.rank U < c.rank U :=
  Prod.Lex.toLex_lt_toLex.mpr (Or.inr ⟨hslack, Prod.Lex.toLex_lt_toLex.mpr (Or.inl h)⟩)

theorem rank_lt_of_network (hslack : c'.slack U = c.slack U)
    (htraffic : c'.traffic c'.standing ≤ c.traffic c.standing)
    (h : c'.network.length < c.network.length) :
    c'.rank U < c.rank U := by
  rcases Nat.lt_or_eq_of_le htraffic with hlt | heq
  · exact rank_lt_of_traffic hslack hlt
  · exact Prod.Lex.toLex_lt_toLex.mpr
      (Or.inr ⟨hslack, Prod.Lex.toLex_lt_toLex.mpr (Or.inr ⟨heq, h⟩)⟩)

section standing

variable {s : Server E id} (hs : c.nodes.lookup id = some s)
include hs

theorem standing_knowledge (n : NodeId) :
    c.standing.knowledge id n = s.engine.replica.dvv.effectiveCounter n := by
  show (c.nodes.lookup id).elim 0 _ = _
  rw [hs]
  rfl

theorem standing_forced (b : NodeId) : c.standing.forced id b = s.engine.forced s.registry b := by
  show (c.nodes.lookup id).elim false _ = _
  rw [hs]
  rfl

theorem NoForcedPair.unforced (h : NoForcedPair c) {b : NodeId} (hb : b ∈ s.registry) :
    c.standing.forced b id = false := by
  rw [Bool.eq_false_iff]
  intro hforced
  cases hlookup : c.nodes.lookup b with
  | none =>
    have hnone : c.standing.forced b id =
        (c.nodes.lookup b).elim false fun s => s.engine.forced s.registry id := rfl
    rw [hnone, hlookup] at hforced
    cases hforced
  | some sb =>
    rw [standing_forced hlookup] at hforced
    exact h b id sb s hlookup hs hforced hb

end standing

section replaced

variable {s s' : Server E id} (hs : c.nodes.lookup id = some s)
  (hnodes : c'.nodes = c.nodes.insert id s')
include hs hnodes

theorem localRequests_replaced :
    c'.localRequests + s.localRequests = c.localRequests + s'.localRequests := by
  unfold localRequests
  rw [hnodes]
  exact AList.sumBy_insert _ hs s'

theorem slack_replaced (U : CausalContext) : c'.slack U + s.slack U = c.slack U + s'.slack U := by
  unfold slack
  rw [hnodes]
  exact AList.sumBy_insert _ hs s'

theorem queues_replaced (st : Standing) :
    c'.nodes.sumBy (fun id s => st.weigh id s.engine.rx) + st.weigh id s.engine.rx =
      c.nodes.sumBy (fun id s => st.weigh id s.engine.rx) + st.weigh id s'.engine.rx := by
  rw [hnodes]
  exact AList.sumBy_insert (fun id (s : Server E id) => st.weigh id s.engine.rx) hs s'

theorem knowledge_replaced (heff : ∀ n, s'.engine.replica.dvv.effectiveCounter n =
    s.engine.replica.dvv.effectiveCounter n) (x n : NodeId) : c'.standing.knowledge x n =
      c.standing.knowledge x n := by
  show (c'.nodes.lookup x).elim 0 _ = (c.nodes.lookup x).elim 0 _
  rw [hnodes]
  by_cases hx : x = id
  · subst hx
    rw [AList.lookup_insert, hs]
    exact heff n
  · rw [AList.lookup_insert_ne hx]

section role

variable (hregistry : s'.registry = s.registry)
  (hgc : s'.engine.replica.gc.gcReplica = s.engine.replica.gc.gcReplica)
include hregistry hgc

theorem forced_replaced (x b : NodeId) : c'.standing.forced x b = c.standing.forced x b := by
  show (c'.nodes.lookup x).elim false _ = (c.nodes.lookup x).elim false _
  rw [hnodes]
  by_cases hx : x = id
  · subst hx
    rw [AList.lookup_insert, hs]
    show s'.engine.forced s'.registry b = s.engine.forced s.registry b
    unfold CrdtEngine.forced
    rw [hgc, hregistry]
  · rw [AList.lookup_insert_ne hx]

theorem standing_replaced (heff : ∀ n, s'.engine.replica.dvv.effectiveCounter n =
    s.engine.replica.dvv.effectiveCounter n) : c'.standing = c.standing := by
  have hknowledge : c'.standing.knowledge = c.standing.knowledge := by
    funext x n
    exact knowledge_replaced hs hnodes heff x n
  have hforced : c'.standing.forced = c.standing.forced := by
    funext x b
    exact forced_replaced hs hnodes hregistry hgc x b
  show (⟨c'.standing.knowledge, c'.standing.forced⟩ : Standing) =
    ⟨c.standing.knowledge, c.standing.forced⟩
  rw [hknowledge, hforced]

end role

end replaced

variable [DecidableEq E]

/-! ## One delivery -/

theorem step_receive {i : Nat} (hstep : c.step (.receive i) = some c') :
    ∃ p s, c.network[i]? = some p ∧ c.nodes.lookup p.dst = some s ∧
      c'.nodes = c.nodes.insert p.dst (s.enqueue (handleReceivedEnvelope p.envelope)) ∧
      c'.network = c.network.eraseIdx i := by
  obtain ⟨p, hp, hstep⟩ := Option.bind_eq_some_iff.mp hstep
  obtain ⟨s, hs, hstep⟩ := Option.bind_eq_some_iff.mp hstep
  split at hstep
  · obtain rfl := Option.some.inj hstep
    exact ⟨p, s, hp, hs, rfl, rfl⟩
  · cases hstep

theorem step_work {choice : Option NodeId} (hstep : c.step (.handle id choice) = some c') :
    ∃ (s : Server E id) (req : CrdtEngineRequest E) (m : EpochMetadata),
      c.nodes.lookup id = some { s with engine := { s.engine with rx := req :: s.engine.rx } } ∧
      c'.nodes = c.nodes.insert id (s.handle m choice req).1 ∧
      c'.network = c.network ++ (s.handle m choice req).2.map fun m => ⟨id, m.1, m.2⟩ := by
  obtain ⟨s, hs, hstep⟩ := Option.bind_eq_some_iff.mp hstep
  split at hstep
  · next req rest htask hrx =>
    obtain rfl := Option.some.inj hstep
    refine ⟨{ s with engine := { s.engine with rx := rest } }, req,
      c.storage.readEpochMetadata, ?_, rfl, rfl⟩
    rw [hs, ← hrx]
  · cases hstep

theorem receive_descends {i : Nat} (hstep : c.step (.receive i) = some c') :
    c'.localRequests = c.localRequests ∧ c'.rank U < c.rank U := by
  obtain ⟨p, s, hp, hs, hnodes, hnetwork⟩ := step_receive hstep
  obtain ⟨hi, hpi⟩ := List.getElem?_eq_some_iff.mp hp
  have hlocal : (s.enqueue (handleReceivedEnvelope p.envelope)).localRequests =
      s.localRequests := by
    have hnone : (handleReceivedEnvelope p.envelope).countP (fun req => decide (Local req)) = 0 :=
      List.countP_eq_zero.mpr fun req hreq => by simpa using not_local_of_received hreq
    unfold Server.localRequests Server.enqueue
    rw [List.countP_append, hnone, Nat.add_zero]
  have hrequests := localRequests_replaced hs hnodes
  have hslack : c'.slack U = c.slack U := Nat.add_right_cancel (slack_replaced hs hnodes U)
  have hstanding : c'.standing = c.standing := standing_replaced hs hnodes rfl rfl fun _ => rfl
  refine ⟨by omega, rank_lt_of_network hslack ?_ ?_⟩
  · have hqueues := queues_replaced hs hnodes c.standing
    have happend :
        c.standing.weigh p.dst (s.enqueue (handleReceivedEnvelope p.envelope)).engine.rx ≤ _ :=
      c.standing.weigh_append_le p.dst s.engine.rx (handleReceivedEnvelope p.envelope)
    have hperm := List.getElem_cons_eraseIdx_perm hi
    rw [hpi] at hperm
    have hflight :=
      (hperm.map fun p => c.standing.weigh p.dst (handleReceivedEnvelope p.envelope)).sum_eq
    rw [List.map_cons, List.sum_cons] at hflight
    unfold traffic
    rw [hstanding, hnetwork]
    omega
  · have hlength := List.length_eraseIdx_of_lt hi
    rw [hnetwork]
    omega

section work

variable {s : Server E id} {req : CrdtEngineRequest E} {m : EpochMetadata} {choice : Option NodeId}
  (hs : c.nodes.lookup id = some { s with engine := { s.engine with rx := req :: s.engine.rx } })
  (hnodes : c'.nodes = c.nodes.insert id (s.handle m choice req).1)
include hs hnodes

theorem local_descends (hlocal : Local req) : c'.localRequests < c.localRequests := by
  have hrequests := localRequests_replaced hs hnodes
  have hless : (s.handle m choice req).1.localRequests + 1 =
      Server.localRequests { s with engine := { s.engine with rx := req :: s.engine.rx } } := by
    unfold Server.localRequests
    rw [Server.handle_rx, List.countP_cons_of_pos (by simpa using hlocal)]
  omega

theorem localRequests_work (hlocal : ¬ Local req) : c'.localRequests = c.localRequests := by
  have hrequests := localRequests_replaced hs hnodes
  have hsame : (s.handle m choice req).1.localRequests =
      Server.localRequests { s with engine := { s.engine with rx := req :: s.engine.rx } } := by
    unfold Server.localRequests
    rw [Server.handle_rx, List.countP_cons_of_neg (by simpa using hlocal)]
  omega

theorem rank_lt_of_work
    (hnetwork : c'.network = c.network ++ (s.handle m choice req).2.map fun m => ⟨id, m.1, m.2⟩)
    (heff : ∀ n, (s.handle m choice req).1.engine.replica.dvv.effectiveCounter n =
      s.engine.replica.dvv.effectiveCounter n)
    (hless : c.standing.weigh id s.engine.rx + c.standing.weighOutbox (s.handle m choice req).2 <
      c.standing.weigh id (req :: s.engine.rx)) : c'.rank U < c.rank U := by
  have hslack : c'.slack U = c.slack U := by
    have hreplaced := slack_replaced hs hnodes U
    have hsame : (s.handle m choice req).1.slack U =
        Server.slack { s with engine := { s.engine with rx := req :: s.engine.rx } } U :=
      Nat.le_antisymm (Server.slack_le (fun n => (heff n).ge) U)
        (Server.slack_le (fun n => (heff n).le) U)
    omega
  have hstanding : c'.standing = c.standing :=
    standing_replaced hs hnodes rfl (s.handle_gcReplica m choice req) heff
  refine rank_lt_of_traffic hslack ?_
  have hqueues := queues_replaced hs hnodes c.standing
  rw [s.handle_rx] at hqueues
  have hqueues : _ + c.standing.weigh id (req :: s.engine.rx) = _ := hqueues
  unfold traffic
  rw [hstanding, hnetwork, List.map_append, List.sum_append, List.map_map]
  unfold Standing.weighOutbox at hless
  show _ + (_ + (List.map (fun m => c.standing.weigh m.1 (handleReceivedEnvelope m.2))
    (s.handle m choice req).2).sum) < _
  omega

theorem work_descends (hregular : Regular c) (hpairs : NoForcedPair c) (hbound : BoundedBy U c)
    (hlocal : ¬ Local req)
    (hnetwork : c'.network = c.network ++ (s.handle m choice req).2.map fun m => ⟨id, m.1, m.2⟩) :
    c'.rank U < c.rank U := by
  have hname := hregular.named id _ hs
  have hordered := hregular.ordered hs
  have hknows := standing_knowledge hs
  have hself := standing_forced hs
  have hforced : ∀ b ∈ s.registry, c.standing.forced b id = false :=
    fun b hb => hpairs.unforced hs hb
  dsimp only at hname hordered hknows hself
  cases req with
  | deltaRequest fromNode crdtId K =>
    have hanswer :
        c.standing.weighOutbox (s.handle m choice (.deltaRequest fromNode crdtId K)).2 < _ :=
      weighOutbox_answer hname hordered hknows hself hforced fromNode crdtId K
    have hnot : ¬ c.standing.Teaches (E := E) id (.deltaRequest fromNode crdtId K) := fun h => h
    refine rank_lt_of_work hs hnodes hnetwork (fun n => ?_) ?_
    · show (s.engine.serverPullRequest s.registry fromNode crdtId K).1.replica.dvv.effectiveCounter
        n = _
      unfold CrdtEngine.serverPullRequest
      split <;> rfl
    · rw [Standing.weigh, if_neg hnot, Standing.weight]
      omega
  | deltaResponse fromNode crdtId delta km =>
    by_cases hteaches : c.standing.Teaches id (.deltaResponse fromNode crdtId delta km)
    · apply rank_lt_of_slack
      obtain ⟨hid, n, hn⟩ := hteaches
      have hmerge : ∀ n, (s.handle m choice
          (.deltaResponse fromNode crdtId delta km)).1.engine.replica.dvv.effectiveCounter n =
            max (s.engine.replica.dvv.effectiveCounter n)
                (delta.causalContext.effectiveCounter n) :=
        s.engine.effectiveCounter_serverDelta s.registry choice delta km (hid.trans hname.symm)
      have hreplaced := slack_replaced hs hnodes U
      have hlt : (s.handle m choice (.deltaResponse fromNode crdtId delta km)).1.slack U <
          Server.slack { s with engine := { s.engine with
            rx := .deltaResponse fromNode crdtId delta km :: s.engine.rx } } U := by
        refine Server.slack_lt (fun n => ?_) (n := n) ?_ ?_
        · rw [hmerge]
          exact Nat.le_max_left _ _
        · rw [hmerge]
          rw [hknows] at hn
          exact lt_max_of_lt_right hn
        · rw [hmerge]
          exact max_le (hbound.replicas id _ (c.core_of_lookup hs) n)
            (hbound.deltas id fromNode crdtId delta km (Or.inl ⟨_, hs, List.mem_cons_self⟩) n)
      omega
    · obtain ⟨hsame, hpush⟩ :=
        weighOutbox_merge hname hknows hforced choice fromNode crdtId delta km hteaches
      have hpush : c.standing.weighOutbox
          (s.handle m choice (.deltaResponse fromNode crdtId delta km)).2 ≤ 3 :=
        hpush
      refine rank_lt_of_work hs hnodes hnetwork hsame ?_
      rw [Standing.weigh, if_neg hteaches, Standing.weight]
      omega
  | _ => exact absurd trivial hlocal

end work

/-! ## Invariants of deliveries -/

omit [DecidableEq E] in
theorem NoForcedPair.replaced (h : NoForcedPair c) {s s' : Server E id}
    (hs : c.nodes.lookup id = some s) (hnodes : c'.nodes = c.nodes.insert id s')
    (hregistry : s'.registry = s.registry)
    (hgc : s'.engine.replica.gc.gcReplica = s.engine.replica.gc.gcReplica) : NoForcedPair c' := by
  have hold : ∀ x (t' : Server E x), c'.nodes.lookup x = some t' →
      ∃ t, c.nodes.lookup x = some t ∧ t'.registry = t.registry := by
    intro x t' ht'
    rw [hnodes] at ht'
    by_cases hx : x = id
    · subst hx
      rw [AList.lookup_insert] at ht'
      obtain rfl := Option.some.inj ht'
      exact ⟨s, hs, hregistry⟩
    · rw [AList.lookup_insert_ne hx] at ht'
      exact ⟨t', ht', rfl⟩
  intro a b sa sb ha hb hforced
  obtain ⟨ta, hta, -⟩ := hold a sa ha
  obtain ⟨tb, htb, hregistry'⟩ := hold b sb hb
  rw [hregistry']
  apply h a b ta tb hta htb
  rw [← standing_forced hta, ← forced_replaced hs hnodes hregistry hgc, standing_forced ha]
  exact hforced

theorem NoForcedPair.delivered (h : NoForcedPair c) {l : Label E} (hl : l.Delivers)
    (hstep : c.step l = some c') :
    NoForcedPair c' := by
  cases l with
  | receive i =>
    obtain ⟨p, s, -, hs, hnodes, -⟩ := step_receive hstep
    exact h.replaced hs hnodes rfl rfl
  | handle id choice =>
    obtain ⟨s, req, m, hs, hnodes, -⟩ := step_work hstep
    exact h.replaced hs hnodes rfl (s.handle_gcReplica m choice req)
  | _ => exact hl.elim

theorem BoundedBy.received (h : BoundedBy U c) {i : Nat} (hstep : c.step (.receive i) = some c') :
    BoundedBy U c' := by
  have hquiet : Quiet _ c c' := step_quiet (by exact trivial) hstep
  refine ⟨fun id k hk => h.replicas id k (hquiet.core id ▸ hk),
    fun dst fromNode crdtId delta km hreq => ?_⟩
  exact h.deltas dst fromNode crdtId delta km
    ((hquiet.pending dst _ hreq).resolve_right fun hputs => local_of_puts hputs)

theorem BoundedBy.handled (h : BoundedBy U c) {choice : Option NodeId} {s : Server E id}
    {req : CrdtEngineRequest E} (hh : Handled c c' id choice s req) (hlocal : ¬ Local req) :
    BoundedBy U c' := by
  have hown := h.replicas id _ hh.before
  refine ⟨fun x k hk n => ?_, fun dst fromNode crdtId delta km hreq n => ?_⟩
  · by_cases hx : x = id
    · subst hx
      rw [hh.after] at hk
      obtain rfl := Option.some.inj hk
      cases req with
      | deltaRequest fromNode crdtId K =>
        have hsame : (s.engine.serverPullRequest s.registry fromNode crdtId K).1.replica.dvv =
            s.engine.replica.dvv := by
          unfold CrdtEngine.serverPullRequest
          split <;> rfl
        show (s.engine.serverPullRequest s.registry fromNode crdtId
          K).1.replica.dvv.effectiveCounter n ≤ _
        rw [hsame]
        exact hown n
      | deltaResponse fromNode crdtId delta km =>
        show (s.engine.serverDelta s.registry choice crdtId delta km).1.replica.dvv.effectiveCounter
          n ≤ _
        by_cases hid : crdtId = s.engine.crdtId
        · rw [s.engine.effectiveCounter_serverDelta s.registry choice delta km hid]
          exact max_le (hown n) (h.deltas x fromNode crdtId delta km hh.taken n)
        · unfold CrdtEngine.serverDelta
          rw [if_pos hid]
          exact hown n
      | _ => exact absurd trivial hlocal
    · rw [hh.others x hx] at hk
      exact h.replicas x k hk n
  · rcases hh.pending dst _ hreq with hold | ⟨envelope, hsent, hreq⟩
    · exact h.deltas dst fromNode crdtId delta km hold n
    · rcases s.sent_cases c.storage.readEpochMetadata choice req hsent hreq with
        ⟨crdtId', heq⟩ | ⟨crdtId', K, km', -, heq, -⟩
      · cases heq
      · cases heq
        rw [OrSet.effectiveCounter_causalContext]
        exact hown n

omit [DecidableEq E] in
theorem exists_boundedBy (c : Cluster E) : ∃ U, BoundedBy U c := by
  obtain ⟨U, hU⟩ := exists_upperBound c.contexts
  refine ⟨U, fun id k hk n => ?_, fun dst fromNode crdtId delta km hreq n => ?_⟩
  · obtain ⟨s, hs, rfl⟩ := Option.map_eq_some_iff.mp hk
    show s.engine.replica.dvv.effectiveCounter n ≤ _
    rw [← DotVersionVector.counterAt_effectiveMap]
    apply hU
    refine List.mem_append_left _ (List.mem_flatMap.mpr ⟨⟨id, s⟩, AList.mem_lookup_iff.mp hs, ?_⟩)
    exact List.mem_cons_self
  · rw [← DotVersionVector.counterAt_effectiveMap]
    apply hU
    rcases hreq with ⟨s, hs, hreq⟩ | ⟨p, hp, -, hreq⟩
    · refine List.mem_append_left _
        (List.mem_flatMap.mpr ⟨⟨dst, s⟩, AList.mem_lookup_iff.mp hs, ?_⟩)
      exact List.mem_cons_of_mem _ (List.mem_filterMap.mpr ⟨_, hreq, rfl⟩)
    · refine List.mem_append_right _ (List.mem_flatMap.mpr ⟨p, hp, ?_⟩)
      exact List.mem_filterMap.mpr ⟨_, hreq, rfl⟩

/-- **Every delivery comes closer to the end**: it works off a request of a client or a timer, or
lowers the rank. -/
theorem delivery_descends (hregular : Regular c) (hpairs : NoForcedPair c) (hbound : BoundedBy U c)
    {l : Label E} (hl : l.Delivers) (hstep : c.step l = some c') :
    c'.localRequests < c.localRequests ∨
      c'.localRequests = c.localRequests ∧ BoundedBy U c' ∧ c'.rank U < c.rank U := by
  cases l with
  | receive i =>
    obtain ⟨hrequests, hrank⟩ := receive_descends (U := U) hstep
    exact Or.inr ⟨hrequests, hbound.received hstep, hrank⟩
  | handle id choice =>
    obtain ⟨s, req, m, hs, hnodes, hnetwork⟩ := step_work hstep
    by_cases hlocal : Local req
    · exact Or.inl (local_descends hs hnodes hlocal)
    · right
      obtain ⟨t, req', hh⟩ := step_handle hstep
      have hreq : req' = req := by
        have hnext := hh.next
        rw [nextRequest, hs] at hnext
        exact (Option.some.inj hnext).symm
      refine ⟨localRequests_work hs hnodes hlocal, hbound.handled hh ?_,
        work_descends hs hnodes hregular hpairs hbound hlocal hnetwork⟩
      rw [hreq]
      exact hlocal
  | _ => exact hl.elim

/-- **Deliveries come to an end** where no two replicas force each other to talk. -/
theorem halts_of_noForcedPair (hregular : Regular c) (hpairs : NoForcedPair c) :
    Halts Cluster.step Label.Delivers c := by
  have hall : ∀ n (c : Cluster E), c.localRequests = n → Regular c → NoForcedPair c →
      Halts Cluster.step Label.Delivers c := by
    intro n
    induction n using Nat.strong_induction_on with
    | _ n ih =>
      intro c hn hregular hpairs
      obtain ⟨U, hU⟩ := exists_boundedBy c
      refine halts_of_descent (P := fun c => c.localRequests = n ∧ Regular c ∧
        NoForcedPair c ∧ BoundedBy U c)
        wellFounded_lt (rank U) (fun c l c' hc hl hstep => ?_) ⟨hn, hregular, hpairs, hU⟩
      obtain ⟨hn, hregular, hpairs, hU⟩ := hc
      have hregular' := hregular.step hstep
      have hpairs' := hpairs.delivered hl hstep
      rcases delivery_descends hregular hpairs hU hl hstep with hless | ⟨hsame, hU', hrank⟩
      · exact Or.inl (ih _ (hn ▸ hless) c' rfl hregular' hpairs')
      · exact Or.inr ⟨⟨hsame.trans hn, hregular', hpairs', hU'⟩, hrank⟩
  exact hall _ c rfl hregular hpairs

/-! ## Two replicas that never stop -/

/-- Every server runs and waits for a message. -/
def AtRest (c : Cluster E) : Prop := ∀ id (s : Server E id), c.nodes.lookup id = some s →
    s.atRest = true

/-- An envelope on its way to `dst` that carries just this request. -/
def InFlight (c : Cluster E) (dst : NodeId) (req : CrdtEngineRequest E) : Prop :=
  ∃ p ∈ c.network, p.dst = dst ∧ handleReceivedEnvelope p.envelope = [req]

/-- `a` always answers `b`, which can push to `a` and knows nothing that `a` does not know. -/
structure Echo (a b : NodeId) (c : Cluster E) : Prop where
  regular : Regular c
  rest : AtRest c
  answers : c.standing.forced a b = true
  pushes : ∃ s, c.nodes.lookup b = some s ∧ a ∈ s.registry
  behind : ∀ n, c.standing.knowledge b n ≤ c.standing.knowledge a n

theorem deliver {dst : NodeId} {s : Server E dst} (hs : c.nodes.lookup dst = some s)
    (hrest : s.atRest = true) {req : CrdtEngineRequest E} (hflight : c.InFlight dst req)
    (choice : Option NodeId) :
    ∃ i u c' m, c.step (.receive i) = some u ∧ u.step (.handle dst choice) = some c' ∧
      c'.nodes = c.nodes.insert dst (s.handle m choice req).1 ∧
      ∀ q ∈ (s.handle m choice req).2, (⟨dst, q.1, q.2⟩ : Packet E) ∈ c'.network := by
  obtain ⟨p, hp, rfl, hreq⟩ := hflight
  obtain ⟨i, hi⟩ := List.getElem?_of_mem hp
  obtain ⟨hidle, hrx, hrunning⟩ := s.atRest_iff.mp hrest
  have hreceive : c.step (.receive i) = some { c.setServer p.dst (s.enqueue [req]) with
      network := c.network.eraseIdx i } := by
    rw [step, hi, Option.bind_eq_bind, Option.bind_some, hs, Option.bind_eq_bind, Option.bind_some,
      if_pos hrunning, hreq]
  have hqueued : ({ c.setServer p.dst (s.enqueue [req]) with network := c.network.eraseIdx i } :
      Cluster E).nodes.lookup p.dst = some (s.enqueue [req]) := AList.lookup_insert _
  obtain ⟨⟨crdtId, replica, task, rx⟩, registry, shutdown⟩ := s
  dsimp only at hidle hrx hrunning
  subst hidle hrx hrunning
  refine ⟨i, _, _, c.storage.readEpochMetadata, hreceive,
    by rw [step, hqueued]; rfl, ?_, fun q hq => ?_⟩
  · exact AList.insert_insert _
  · exact List.mem_append_right _ (List.mem_map.mpr ⟨q, hq, rfl⟩)

theorem AtRest.delivered (h : AtRest c) {s : Server E id} (hs : c.nodes.lookup id = some s)
    {m : EpochMetadata} {choice : Option NodeId} {req : CrdtEngineRequest E} (hlocal : ¬ Local req)
    (hnodes : c'.nodes = c.nodes.insert id (s.handle m choice req).1) : AtRest c' := by
  intro x t ht
  rw [hnodes] at ht
  by_cases hx : x = id
  · subst hx
    rw [AList.lookup_insert] at ht
    obtain rfl := Option.some.inj ht
    obtain ⟨hidle, hrx, hrunning⟩ := s.atRest_iff.mp (h x s hs)
    refine Server.atRest_iff _ |>.mpr ⟨?_, ?_, ?_⟩
    · rcases handle_task s m choice req with htask | ⟨rfl, -⟩
      · exact htask.trans hidle
      · exact absurd trivial hlocal
    · rw [s.handle_rx, hrx]
    · cases req with
      | deregistrationState => exact absurd trivial hlocal
      | _ => exact hrunning
  · rw [AList.lookup_insert_ne hx] at ht
    exact h x t ht

omit [DecidableEq E] in
theorem pushes_replaced {a b : NodeId} (h : ∃ t, c.nodes.lookup b = some t ∧ a ∈ t.registry)
    {s s' : Server E id} (hs : c.nodes.lookup id = some s)
    (hnodes : c'.nodes = c.nodes.insert id s') (hregistry : s'.registry = s.registry) :
    ∃ t, c'.nodes.lookup b = some t ∧ a ∈ t.registry := by
  obtain ⟨t, ht, hmem⟩ := h
  rw [hnodes]
  by_cases hb : b = id
  · subst hb
    rw [hs] at ht
    obtain rfl := Option.some.inj ht
    exact ⟨s', AList.lookup_insert _, by rw [hregistry]; exact hmem⟩
  · exact ⟨t, by rw [AList.lookup_insert_ne hb, ht], hmem⟩

omit [DecidableEq E] in
theorem exists_of_forced {a b : NodeId} (h : c.standing.forced a b = true) :
    ∃ s, c.nodes.lookup a = some s := by
  cases hlookup : c.nodes.lookup a with
  | some s => exact ⟨s, rfl⟩
  | none =>
    have hnone : c.standing.forced a b = (c.nodes.lookup a).elim false fun s =>
      s.engine.forced s.registry b := rfl
    rw [hnone, hlookup] at h
    cases h

namespace Echo

variable {a b : NodeId}

theorem answered (h : Echo a b c) {K : CausalContext}
    (hK : ∀ n, counterAt K n ≤ c.standing.knowledge a n)
    (hflight : c.InFlight a (.deltaRequest b Server.crdtId K)) :
    ∃ i u c', c.step (.receive i) = some u ∧ u.step (.handle a none) = some c' ∧ Echo a b c' ∧
      ∃ delta km, c'.InFlight b (.deltaResponse a Server.crdtId delta km) ∧
        ∀ n, delta.causalContext.effectiveCounter n ≤ c'.standing.knowledge a n := by
  obtain ⟨s, hs⟩ := exists_of_forced h.answers
  have hknows := standing_knowledge hs
  obtain ⟨i, u, c', m, hreceive, hhandle, hnodes, hsent⟩ := deliver hs (h.rest a s hs) hflight none
  have hsame : (s.handle m none (.deltaRequest b Server.crdtId K)).1.engine.replica.dvv =
      s.engine.replica.dvv := by
    show (s.engine.serverPullRequest s.registry b Server.crdtId K).1.replica.dvv = _
    unfold CrdtEngine.serverPullRequest
    split <;> rfl
  have hstanding : c'.standing = c.standing :=
    standing_replaced hs hnodes rfl (s.handle_gcReplica m none _) fun n => by rw [hsame]
  have hlocal : ¬ Local (E := E) (.deltaRequest b Server.crdtId K) := fun hlocal => hlocal
  refine ⟨i, u, c', hreceive, hhandle, ⟨(h.regular.step hreceive).step hhandle,
    h.rest.delivered hs hlocal hnodes, ?_, pushes_replaced h.pushes hs hnodes rfl, ?_⟩, ?_⟩
  · rw [hstanding]
    exact h.answers
  · rw [hstanding]
    exact h.behind
  · obtain ⟨km, hout⟩ := s.engine.serverPullRequest_of_forced (h.regular.named a s hs).symm
      ((standing_forced hs b).symm.trans h.answers) fun n => (hK n).trans_eq (hknows n)
    have hout : (s.handle m none (.deltaRequest b Server.crdtId K)).2 = _ := hout
    refine ⟨_, km, ⟨_, hsent _ (by rw [hout]; exact List.mem_singleton_self _), rfl, rfl⟩,
      fun n => ?_⟩
    rw [hstanding, hknows, OrSet.effectiveCounter_causalContext]

theorem asked (h : Echo a b c) {delta : OrSetDelta E} {km : Option MatrixClock}
    (hdelta : ∀ n, delta.causalContext.effectiveCounter n ≤ c.standing.knowledge a n)
    (hflight : c.InFlight b (.deltaResponse a Server.crdtId delta km)) :
    ∃ i u c', c.step (.receive i) = some u ∧ u.step (.handle b (some a)) = some c' ∧ Echo a b c' ∧
      ∃ K, c'.InFlight a (.deltaRequest b Server.crdtId K) ∧
        ∀ n, counterAt K n ≤ c'.standing.knowledge a n := by
  obtain ⟨s, hs, hpeer⟩ := h.pushes
  have hname := (h.regular.named b s hs).symm
  obtain ⟨i, u, c', m, hreceive, hhandle, hnodes, hsent⟩ :=
    deliver hs (h.rest b s hs) hflight (some a)
  set s' := (s.handle m (some a) (.deltaResponse a Server.crdtId delta km)).1 with hs'
  have hafter : c'.nodes.lookup b = some s' := by
    rw [hnodes, AList.lookup_insert]
  have hmerge : ∀ n, c'.standing.knowledge b n =
      max (c.standing.knowledge b n) (delta.causalContext.effectiveCounter n) := by
    intro n
    rw [standing_knowledge hafter, standing_knowledge hs]
    exact s.engine.effectiveCounter_serverDelta s.registry (some a) delta km hname n
  have hothers : ∀ x n, x ≠ b → c'.standing.knowledge x n = c.standing.knowledge x n := by
    intro x n hx
    show (c'.nodes.lookup x).elim 0 _ = (c.nodes.lookup x).elim 0 _
    rw [hnodes, AList.lookup_insert_ne hx]
  have hbehind : ∀ n, c'.standing.knowledge b n ≤ c'.standing.knowledge a n := by
    intro n
    by_cases ha : a = b
    · rw [ha]
    · rw [hmerge, hothers a n ha]
      exact max_le (h.behind n) (hdelta n)
  have hforced : c'.standing.forced a b = true := by
    rw [forced_replaced hs hnodes rfl (s.handle_gcReplica m (some a) _)]
    exact h.answers
  have hlocal : ¬ Local (.deltaResponse a Server.crdtId delta km) := fun hlocal => hlocal
  refine ⟨i, u, c', hreceive, hhandle, ⟨(h.regular.step hreceive).step hhandle,
    h.rest.delivered hs hlocal hnodes, hforced, pushes_replaced h.pushes hs hnodes rfl,
    hbehind⟩, ?_⟩
  obtain ⟨gcReplica, hout⟩ := s.engine.serverDelta_push hname hpeer delta km
  have hout : (s.handle m (some a) (.deltaResponse a Server.crdtId delta km)).2 = _ := hout
  refine ⟨_, ⟨_, hsent _ (by rw [hout]; exact List.mem_singleton_self _), rfl, rfl⟩, fun n => ?_⟩
  have hK : counterAt s'.engine.replica.dvv.effectiveMap n = c'.standing.knowledge b n := by
    rw [DotVersionVector.counterAt_effectiveMap, standing_knowledge hafter]
  exact hK.trans_le (hbehind n)

/-- **Two such replicas talk forever.** -/
theorem never_halts (h : Echo a b c) {K : CausalContext}
    (hK : ∀ n, counterAt K n ≤ c.standing.knowledge a n)
    (hflight : c.InFlight a (.deltaRequest b Server.crdtId K)) :
    ¬ Halts Cluster.step Label.Delivers c := by
  refine not_halts_of_loop
    (P := fun c => Echo a b c ∧ ∃ K, c.InFlight a (.deltaRequest b Server.crdtId K) ∧
    ∀ n, counterAt K n ≤ c.standing.knowledge a n) (fun c hc => ?_) ⟨h, K, hflight, hK⟩
  obtain ⟨h, K, hflight, hK⟩ := hc
  obtain ⟨i, u, c₁, hreceive, hhandle, h₁, delta, km, hflight, hdelta⟩ := h.answered hK hflight
  obtain ⟨j, v, c₂, hreceive', hhandle', h₂, K', hflight, hK'⟩ := h₁.asked hdelta hflight
  refine ⟨.receive i, u, c₂, trivial, hreceive, ?_, h₂, K', hflight, hK'⟩
  exact .next (l := .handle b (some a))
    (.next (l := .receive j) (.next (l := .handle a none) .start trivial hhandle)
    trivial hreceive') trivial hhandle'

end Echo

/-- All replicas know the same. -/
def Converged (c : Cluster E) : Prop :=
  ∀ a b (sa : Server E a) (sb : Server E b), c.nodes.lookup a = some sa →
    c.nodes.lookup b = some sb →
    ∀ n, sa.engine.replica.dvv.effectiveCounter n = sb.engine.replica.dvv.effectiveCounter n

omit [DecidableEq E] in
theorem Regular.of_network (h : Regular c) (network : List (Packet E)) :
    Regular { c with network } :=
  ⟨h.named, h.data.replicas, fun _ _ _ _ _ _ => trivial, trivial, fun _ _ _ _ _ _ => trivial⟩

theorem not_halts_of_forced (hregular : Regular c) (hrest : AtRest c) (hsame : Converged c)
    {a b : NodeId} {sa : Server E a} {sb : Server E b} (ha : c.nodes.lookup a = some sa)
    (hb : c.nodes.lookup b = some sb) (hforced : sa.engine.forced sa.registry b = true)
    (hmem : a ∈ sb.registry)
    (hpush : ∃ p ∈ c.network,
      p.dst = a ∧ p.envelope.pulls b sb.engine.replica.dvv.effectiveMap = true) :
    ¬ Halts Cluster.step Label.Delivers c := by
  have hbehind : ∀ n, c.standing.knowledge b n = c.standing.knowledge a n := by
    intro n
    rw [standing_knowledge hb, standing_knowledge ha]
    exact hsame b a sb sa hb ha n
  have hecho : Echo a b c :=
    ⟨hregular, hrest, (standing_forced ha b).trans hforced, ⟨sb, hb, hmem⟩, fun n => (hbehind n).le⟩
  obtain ⟨p, hp, hdst, hpulls⟩ := hpush
  refine hecho.never_halts (fun n => ?_) ⟨p, hp, hdst, Envelope.received_of_pulls hpulls⟩
  rw [DotVersionVector.counterAt_effectiveMap, ← hbehind, standing_knowledge hb]

/-- **When a cluster goes quiet**: where no two replicas force each other to talk, every sequence of
deliveries is finite, whatever envelopes are in flight. Among converged clusters at rest these are
all that go quiet. -/
theorem goes_quiet (members : HashMap NodeId Bool) (c : Cluster E)
    (h : Reachable Cluster.step (fun _ _ => True) (fixed members) c) :
    (NoForcedPair c → ∀ network, Halts Cluster.step Label.Delivers { c with network }) ∧
      (AtRest c → Converged c → (∀ network, Halts Cluster.step Label.Delivers { c with network }) →
        NoForcedPair c) := by
  have hregular := regular_of_reachable h
  constructor
  · intro hpairs network
    exact halts_of_noForcedPair (hregular.of_network network) hpairs
  · intro hrest hsame hhalts a b sa sb ha hb hforced hmem
    let push : Packet E :=
      ⟨b, a, .crdtPullRequest Server.crdtId true b (some sb.engine.replica.dvv.effectiveMap)⟩
    have hpulls : push.envelope.pulls b sb.engine.replica.dvv.effectiveMap = true := by
      simp [push, Envelope.pulls]
    exact not_halts_of_forced (c := { c with network := [push] })
      (hregular.of_network _) hrest hsame ha hb
      hforced hmem ⟨push, List.mem_singleton_self _, rfl, hpulls⟩ (hhalts [push])

/-- A GC replica and a normal one, which asks `G` for what it has just added. -/
def pullAfterAdd : List (Label String) :=
  [.connect "G" "N" false, .connect "N" "G" true, .request "G" (.clientOperation (.add "x")),
    .handle "G" (some "N"),
    .request "N" .doPullRound, .handle "N" (some "G")]

theorem goes_quiet_pullAfterAdd :
    ∃ c, replay Cluster.step (fun _ _ => True)
      (fixed (AList.ofPairs [("G", true), ("N", false)])) pullAfterAdd =
        some c ∧ c.network.length = 2 ∧ Halts Cluster.step Label.Delivers c := by
  have hrun : (replay Cluster.step (fun _ _ => True)
      (fixed (AList.ofPairs [("G", true), ("N", false)]))
      pullAfterAdd).map (fun c => (c.network.length, decide (NoForcedPair c))) =
          some (2, true) := by
    decide +kernel
  obtain ⟨c, hc, hfacts⟩ := Option.map_eq_some_iff.mp hrun
  obtain ⟨hlen, hpairs⟩ := Prod.mk.inj hfacts
  exact ⟨c, hc, hlen, (goes_quiet _ c (reachable_of_replay _ .start hc)).1
    (of_decide_eq_true hpairs) c.network⟩

/-- Two GC replicas that both know the one event there was, with a pull of `H` in flight. -/
theorem gc_replicas_never_quiet :
    ∃ c : Cluster String, Reachable Cluster.step (fun _ _ => True) gcPair c ∧ Converged c ∧
      ¬ Halts Cluster.step Label.Delivers c := by
  let known : CausalContext := (∅ : CausalContext).insert "G" 1
  have hrun : (replay Cluster.step (fun _ _ => True) gcPair
      (gossip ++ [.request "H" .doPullRound, .handle "H" (some "G")])).map (fun c => decide
        ((∀ e ∈ c.nodes.entries, e.2.atRest = true ∧
          e.2.engine.replica.dvv.effectiveMap.entries = known.entries) ∧
          c.standing.forced "G" "H" = true ∧
          (c.nodes.lookup "H").any (fun s => decide ("G" ∈ s.registry)) = true ∧
          ∃ p ∈ c.network, p.dst = "G" ∧ p.envelope.pulls "H" known = true)) = some true :=
            by decide +kernel
  obtain ⟨c, hc, hfacts⟩ := Option.map_eq_some_iff.mp hrun
  obtain ⟨hnodes, hforced, hmem, hpush⟩ := of_decide_eq_true hfacts
  have hreachable := reachable_of_replay _ .start hc
  rw [← AList.forall_lookup_iff (P := fun _ (s : Server String _) => s.atRest = true ∧
    s.engine.replica.dvv.effectiveMap.entries = known.entries)] at hnodes
  have hknown : ∀ id (s : Server String id), c.nodes.lookup id = some s → ∀ n,
      s.engine.replica.dvv.effectiveCounter n = counterAt known n := by
    intro id s hs n
    rw [← DotVersionVector.counterAt_effectiveMap, AList.ext (hnodes id s hs).2]
  have hsame : Converged c := by
    intro a b sa sb ha hb n
    rw [hknown a sa ha, hknown b sb hb]
  obtain ⟨sa, ha⟩ := exists_of_forced hforced
  obtain ⟨sb, hb, hmem⟩ := (Option.any_eq_true _ _).mp hmem
  refine ⟨c, hreachable, hsame, not_halts_of_forced (regular_of_reachable hreachable)
    (fun id s hs => (hnodes id s hs).1) hsame ha hb ((standing_forced ha "H").symm.trans hforced)
    (of_decide_eq_true hmem) ?_⟩
  rw [AList.ext (hnodes "H" sb hb).2]
  exact hpush

end Cluster

end ExperimentalCrdt
