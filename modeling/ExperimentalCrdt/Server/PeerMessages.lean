import ExperimentalCrdt.Crdt.Codec
import ExperimentalCrdt.Engine.CrdtEngine
import ExperimentalCrdt.Proto.Envelope

/-!
# Messages between servers

How the messages of the dissemination become envelopes on the wire (`make_crdt_op_envelope` and
`make_pull_request_envelope` in `network/dissemination.rs`, with the payload that `crdt_engine.rs`
encodes), and what `server/peer_message_handler.rs` makes of an envelope that comes in.

The engine decodes the payload of a delta when it gets to the request, and drops the request if that
fails. Decoding depends on nothing else, so it is done here, when the request is put into the queue.

What fits is understood (`ofProto_toProto`), and handled as the message it stands for
(`handleReceivedEnvelope_ofProto`).
-/

namespace ExperimentalCrdt

theorem forall_lookup_iff_toPairs {K V : Type} [DecidableEq K] {m : HashMap K V}
    {P : K → V → Prop} :
    (∀ k v, m.lookup k = some v → P k v) ↔ ∀ e ∈ m.toPairs, P e.1 e.2 := by
  constructor
  · exact fun h e he => h e.1 e.2 (AList.mem_toPairs.mp he)
  · exact fun h k v hk => h (k, v) (AList.mem_toPairs.mpr hk)

instance (m : Proto.VectorClock) : Decidable m.Fits :=
  decidable_of_iff (∀ e ∈ m.entries.toPairs, e.2 < 2 ^ 64)
    (forall_lookup_iff_toPairs (P := fun _ c => c < 2 ^ 64)).symm

instance (m : Proto.KnowledgeMatrix) : Decidable m.Fits :=
  decidable_of_iff (∀ e ∈ m.entries.toPairs, e.2.Fits)
    (forall_lookup_iff_toPairs (P := fun _ (v : Proto.VectorClock) => v.Fits)).symm

instance (m : Proto.CrdtOp) : Decidable m.Fits := by
  unfold Proto.CrdtOp.Fits
  infer_instance

instance (m : Proto.CrdtPullRequest) : Decidable m.Fits := by
  unfold Proto.CrdtPullRequest.Fits
  infer_instance

instance (p : Proto.Payload) : Decidable p.Fits := by
  cases p <;> unfold Proto.Payload.Fits
  · unfold Proto.Handshake.Fits
    infer_instance
  · infer_instance
  · infer_instance

instance (m : Proto.Envelope) : Decidable m.Fits := by
  unfold Proto.Envelope.Fits
  infer_instance

instance (delta : OrSetDelta String) : Decidable delta.Fits :=
  decidable_of_iff ((∀ add ∈ delta.adds, add.2.counter < 2 ^ 64) ∧
      (∀ t ∈ delta.tombstones, t.1.counter < 2 ^ 64 ∧ t.2.counter < 2 ^ 64) ∧
        (∀ e ∈ delta.context.toPairs, e.2 < 2 ^ 64) ∧ delta.dotCounter < 2 ^ 64) (by
    rw [← forall_lookup_iff_toPairs (P := fun _ c => c < 2 ^ 64)]
    exact ⟨fun ⟨h₁, h₂, h₃, h₄⟩ => ⟨h₁, h₂, h₃, h₄⟩, fun ⟨h₁, h₂, h₃, h₄⟩ => ⟨h₁, h₂, h₃, h₄⟩⟩)

namespace Envelope

/-- `encode_delta`. A map has no order; the context is written from its end. -/
def encodePayload (delta : OrSetDelta String) : List UInt8 :=
  OrSet.encodeDelta { delta with context := delta.context.reversed }

def toProto : Envelope String → Proto.Envelope
  | .crdtOp crdtId payload originNodeId requesterKnowledge knowledgeMatrix =>
    ⟨some (.crdtOp
      { crdtId, payload := encodePayload payload, originNodeId
        requesterKnowledge := requesterKnowledge.map Proto.VectorClock.mk
        knowledgeMatrix := knowledgeMatrix.map fun m => ⟨m.mapValues Proto.VectorClock.mk⟩ })⟩
  | .crdtPullRequest crdtId gcReplica originNodeId knowledge =>
    ⟨some (.crdtPullRequest
      { crdtId, gcReplica, originNodeId, knowledge := knowledge.map Proto.VectorClock.mk })⟩

/-- The message that an envelope stands for, if its payload decodes. -/
def ofProto (m : Proto.Envelope) : Option (Envelope String) :=
  match m.payload with
  | some (.crdtOp op) =>
    match OrSet.decodeDelta op.payload with
    | .ok payload =>
      some (.crdtOp op.crdtId payload op.originNodeId
        (op.requesterKnowledge.map fun vc => vc.entries)
        (op.knowledgeMatrix.map fun km => km.entries.mapValues fun vc => vc.entries))
    | .error _ => none
  | some (.crdtPullRequest request) =>
    some (.crdtPullRequest request.crdtId request.gcReplica request.originNodeId
      (request.knowledge.map fun vc => vc.entries))
  | some (.handshake _) | none => none

/-- The counters are `u64`, and the length fits into the header of a frame. -/
def Sendable (envelope : Envelope String) : Prop :=
  envelope.toProto.Fits ∧ envelope.toProto.encodeToVec.length < 2 ^ 32 ∧
    match envelope with
    | .crdtOp _ payload _ _ _ => payload.Fits
    | .crdtPullRequest _ _ _ _ => True

instance (envelope : Envelope String) : Decidable envelope.Sendable := by
  unfold Sendable
  cases envelope <;> infer_instance

end Envelope

namespace PeerMessageHandler

/-- The requests that a received envelope puts into the engine's queue. -/
def handleReceivedEnvelope (envelope : Proto.Envelope) : List (CrdtEngineRequest String) :=
  match envelope.payload with
  | some (.crdtOp crdtOp) =>
    (match OrSet.decodeDelta crdtOp.payload with
      | .ok payload =>
        [.deltaResponse crdtOp.originNodeId crdtOp.crdtId payload
          (crdtOp.knowledgeMatrix.map fun km => km.entries.mapValues fun vc => vc.entries)]
      | .error _ => []) ++
      match crdtOp.requesterKnowledge with
      | some vc =>
        if vc.entries.entries.isEmpty then []
          else [.deltaRequest crdtOp.originNodeId crdtOp.crdtId vc.entries]
      | none => []
  | some (.crdtPullRequest req) =>
    [.deltaRequest req.originNodeId req.crdtId ((req.knowledge.map fun vc => vc.entries).getD ∅)]
  | some (.handshake _) | none => []

end PeerMessageHandler

namespace Envelope

theorem mapValues_entries_mk (m : MatrixClock) :
    (m.mapValues Proto.VectorClock.mk).mapValues (fun vc => vc.entries) = m := by
  refine AList.ext ?_
  show (m.entries.map _).map _ = m.entries
  rw [List.map_map]
  exact List.map_id _

theorem decodeDelta_encodePayload {delta : OrSetDelta String} (h : delta.Fits)
    (hlen : (encodePayload delta).length < 2 ^ 64) :
    OrSet.decodeDelta (encodePayload delta) = .ok delta := by
  have hfits : OrSetDelta.Fits { delta with context := delta.context.reversed } := by
    refine { h with context := fun n c hlookup => ?_ }
    rw [AList.lookup_reversed] at hlookup
    exact h.context n c hlookup
  have hdecode := OrSet.decodeDelta_encodeDelta hfits hlen
  dsimp only at hdecode
  rw [AList.toPairs_reversed, AList.ofPairs_reverse_toPairs] at hdecode
  exact hdecode

theorem length_payload_le (op : Proto.CrdtOp) :
    op.payload.length ≤ (Proto.Envelope.encodeToVec ⟨some (.crdtOp op)⟩).length := by
  have houter : (Proto.CrdtOp.message.encode op).length ≤
      (Proto.Envelope.encodeToVec ⟨some (.crdtOp op)⟩).length :=
    Wire.length_le_of_mem
      (List.mem_singleton_self (4, Wire.Value.len (Proto.CrdtOp.message.encode op)))
  have hinner : op.payload.length ≤ (Proto.CrdtOp.message.encode op).length := by
    by_cases hempty : op.payload = []
    · rw [hempty]
      exact Nat.zero_le _
    · refine @Wire.length_le_of_mem 2 op.payload _ ?_
      have hvalues : (Wire.Field.plain Wire.Kind.bytes).values op.payload = [.len op.payload] :=
        if_neg hempty
      simp [Proto.CrdtOp.message, Wire.Message.rename, Wire.Message.field, hvalues]
  omega

theorem ofProto_toProto {envelope : Envelope String} (h : envelope.Sendable) :
    ofProto envelope.toProto = some envelope := by
  have hvc : ∀ o : Option CausalContext, (o.map Proto.VectorClock.mk).map
      (fun vc => vc.entries) = o := by
    intro o
    cases o <;> rfl
  obtain ⟨-, hlen, hfits⟩ := h
  cases envelope with
  | crdtOp crdtId payload originNodeId requesterKnowledge knowledgeMatrix =>
    have hpayload : (encodePayload payload).length < 2 ^ 32 :=
      Nat.lt_of_le_of_lt (length_payload_le (.mk crdtId (encodePayload payload) originNodeId _ _))
        hlen
    have hmatrix :
        (knowledgeMatrix.map fun m => Proto.KnowledgeMatrix.mk
          (m.mapValues Proto.VectorClock.mk)).map
        (fun km => km.entries.mapValues fun vc => vc.entries) = knowledgeMatrix := by
      cases knowledgeMatrix with
      | none => rfl
      | some m => exact congrArg some (mapValues_entries_mk m)
    unfold ofProto toProto
    dsimp only
    rw [decodeDelta_encodePayload hfits (by omega), hvc, hmatrix]
  | crdtPullRequest crdtId gcReplica originNodeId knowledge =>
    unfold ofProto toProto
    dsimp only
    rw [hvc]

/-- What is understood is handled as the message it stands for. -/
theorem handleReceivedEnvelope_ofProto {m : Proto.Envelope} {envelope : Envelope String}
    (h : ofProto m = some envelope) :
    PeerMessageHandler.handleReceivedEnvelope m =
      ExperimentalCrdt.handleReceivedEnvelope envelope := by
  unfold ofProto at h
  unfold PeerMessageHandler.handleReceivedEnvelope
  split at h
  · next op hop =>
    split at h
    · next payload hpayload =>
      obtain rfl := Option.some.inj h
      cases op.requesterKnowledge with
      | none => rfl
      | some vc => rfl
    · cases h
  · next request hrequest =>
    obtain rfl := Option.some.inj h
    rfl
  · cases h
  · cases h

end Envelope

end ExperimentalCrdt
