import ExperimentalCrdt.Lib.WireMessage
import ExperimentalCrdt.Network.Protocol
import ExperimentalCrdt.Proto.Messages

/-!
# The messages on a connection

`proto/mod.rs`, as far as peers and clients talk to each other: which field of a message stands
under which tag, and which alternative of a `oneof`. The rest is derived by `prost`.

`Fits` says of a message that its numbers are in the range of their types. `envelope_round_trip`
says that every envelope reads back from its encoding, and that what was accepted is in range, can
be encoded in the room it had, and comes back when it is. So the envelopes are a codec for the
framing (`Envelope.codec`).
-/

namespace ExperimentalCrdt

namespace Proto

open Wire
open Wire.Message (unit entry oneof)

structure VectorClock where
  entries : HashMap String Nat := ∅
deriving DecidableEq

structure Handshake where
  nodeId : String := ""
  nodeName : String := ""
  version : Nat := 0
  gcReplica : Bool := false
deriving DecidableEq

structure KnowledgeMatrix where
  entries : HashMap String VectorClock := ∅
deriving DecidableEq

structure CrdtOp where
  crdtId : String := ""
  payload : List UInt8 := []
  originNodeId : String := ""
  requesterKnowledge : Option VectorClock := none
  knowledgeMatrix : Option KnowledgeMatrix := none
deriving DecidableEq

structure CrdtPullRequest where
  crdtId : String := ""
  originNodeId : String := ""
  knowledge : Option VectorClock := none
  gcReplica : Bool := false
deriving DecidableEq

inductive Payload where
  | handshake (hs : Handshake)
  | crdtOp (op : CrdtOp)
  | crdtPullRequest (request : CrdtPullRequest)
deriving DecidableEq

structure Envelope where
  payload : Option Payload := none
deriving DecidableEq

inductive Command where
  | add (element : String)
  | remove (element : String)
  | printState (value : Bool)
  | printInternals (value : Bool)
  | printMatrix (value : Bool)
  | removeRandom (value : Bool)
deriving DecidableEq

structure ProtoClientCommand where
  command : Option Command := none
deriving DecidableEq

/-! ## Tags -/

def VectorClock.message : Message VectorClock :=
  (unit.field 1 (.map (entry .string .uint64))).rename (fun m => ⟨m.2⟩) fun m => ((), m.entries)

def Handshake.message : Message Handshake :=
  ((((unit.field 1 (.plain .string)).field 2 (.plain .string)).field 3 (.plain .uint32)).field 4
    (.plain .bool)).rename
    (fun m => ⟨m.1.1.1.2, m.1.1.2, m.1.2, m.2⟩)
    fun m => (((((), m.nodeId), m.nodeName), m.version), m.gcReplica)

def KnowledgeMatrix.message : Message KnowledgeMatrix :=
  (unit.field 1 (.map (entry .string (.message VectorClock.message)))).rename
    (fun m => ⟨m.2⟩) fun m => ((), m.entries)

def CrdtOp.message : Message CrdtOp :=
  (((((unit.field 1 (.plain .string)).field 2 (.plain .bytes)).field 4 (.plain .string)).field 5
    (.optional (.message VectorClock.message))).field 6
      (.optional (.message KnowledgeMatrix.message))).rename
    (fun m => ⟨m.1.1.1.1.2, m.1.1.1.2, m.1.1.2, m.1.2, m.2⟩)
    fun m => ((((((), m.crdtId), m.payload), m.originNodeId), m.requesterKnowledge),
      m.knowledgeMatrix)

def CrdtPullRequest.message : Message CrdtPullRequest :=
  ((((unit.field 1 (.plain .string)).field 2 (.plain .string)).field 3
    (.optional (.message VectorClock.message))).field 4 (.plain .bool)).rename
    (fun m => ⟨m.1.1.1.2, m.1.1.2, m.1.2, m.2⟩)
    fun m => (((((), m.crdtId), m.originNodeId), m.knowledge), m.gcReplica)

def Payload.pack : (Handshake ⊕ CrdtOp) ⊕ CrdtPullRequest → Payload
  | .inl (.inl hs) => .handshake hs
  | .inl (.inr op) => .crdtOp op
  | .inr request => .crdtPullRequest request

def Payload.unpack : Payload → (Handshake ⊕ CrdtOp) ⊕ CrdtPullRequest
  | .handshake hs => .inl (.inl hs)
  | .crdtOp op => .inl (.inr op)
  | .crdtPullRequest request => .inr request

def Envelope.message : Message Envelope :=
  (((oneof 1 (.message Handshake.message)).alternative 4 (.message CrdtOp.message)).alternative 5
    (.message CrdtPullRequest.message)).rename (fun o => ⟨o.map Payload.pack⟩) fun m =>
      m.payload.map Payload.unpack

def Command.pack : ((((String ⊕ String) ⊕ Bool) ⊕ Bool) ⊕ Bool) ⊕ Bool → Command
  | .inl (.inl (.inl (.inl (.inl element)))) => .add element
  | .inl (.inl (.inl (.inl (.inr element)))) => .remove element
  | .inl (.inl (.inl (.inr value))) => .printState value
  | .inl (.inl (.inr value)) => .printInternals value
  | .inl (.inr value) => .printMatrix value
  | .inr value => .removeRandom value

def Command.unpack : Command → ((((String ⊕ String) ⊕ Bool) ⊕ Bool) ⊕ Bool) ⊕ Bool
  | .add element => .inl (.inl (.inl (.inl (.inl element))))
  | .remove element => .inl (.inl (.inl (.inl (.inr element))))
  | .printState value => .inl (.inl (.inl (.inr value)))
  | .printInternals value => .inl (.inl (.inr value))
  | .printMatrix value => .inl (.inr value)
  | .removeRandom value => .inr value

def ProtoClientCommand.message : Message ProtoClientCommand :=
  ((((((oneof 1 .string).alternative 2 .string).alternative 3 .bool).alternative
    4 .bool).alternative 5
    .bool).alternative 6 .bool).rename (fun o => ⟨o.map Command.pack⟩) fun m =>
      m.command.map Command.unpack

def Envelope.encodeToVec (m : Envelope) : List UInt8 := message.encode m

def Envelope.decode (bytes : List UInt8) : Option Envelope := message.decode RECURSION_LIMIT bytes

def ProtoClientCommand.encodeToVec (m : ProtoClientCommand) : List UInt8 := message.encode m

def ProtoClientCommand.decode (bytes : List UInt8) : Option ProtoClientCommand :=
  message.decode RECURSION_LIMIT bytes

/-! ## Ranges -/

def VectorClock.Fits (m : VectorClock) : Prop := ∀ n c, m.entries.lookup n = some c → c < 2 ^ 64

def Handshake.Fits (m : Handshake) : Prop := m.version < 2 ^ 32

def KnowledgeMatrix.Fits (m : KnowledgeMatrix) : Prop := ∀ n v, m.entries.lookup n = some v → v.Fits

def CrdtOp.Fits (m : CrdtOp) : Prop := (∀ v ∈ m.requesterKnowledge, v.Fits) ∧
    ∀ k ∈ m.knowledgeMatrix, k.Fits

def CrdtPullRequest.Fits (m : CrdtPullRequest) : Prop := ∀ v ∈ m.knowledge, v.Fits

def Payload.Fits : Payload → Prop
  | .handshake hs => hs.Fits
  | .crdtOp op => op.Fits
  | .crdtPullRequest request => request.Fits

def Envelope.Fits (m : Envelope) : Prop := ∀ p ∈ m.payload, p.Fits

theorem lawful_vectorClock (nesting : Nat) :
    VectorClock.message.Lawful VectorClock.Fits (nesting + 1) 2 := by
  have hentry := Message.lawful_entry (Kind.lawful_string nesting) (Kind.lawful_uint64 nesting)
  have hfield := (Message.lawful_unit (nesting + 1) 1).field (Field.lawful_map hentry)
    (Nat.le_refl 1) (by omega) (by omega)
  refine (hfield.rename (fun _ => rfl) fun _ => rfl).congr fun m => ?_
  show True ∧ (∀ n c, _ → True ∧ c < 2 ^ 64) ↔ ∀ n c, _ → c < 2 ^ 64
  simp only [true_and]

theorem lawful_handshake (nesting : Nat) : Handshake.message.Lawful Handshake.Fits nesting 5 := by
  have hstring := Field.lawful_plain (Kind.lawful_string nesting)
  have hid := (Message.lawful_unit nesting 1).field hstring (Nat.le_refl 1) (by omega) (by omega)
  have hname := hid.field hstring (Nat.le_refl 2) (by omega) (by omega)
  have hversion := hname.field (Field.lawful_plain (Kind.lawful_uint32 nesting))
    (Nat.le_refl 3) (by omega) (by omega)
  have hgc := hversion.field (Field.lawful_plain (Kind.lawful_bool nesting))
    (Nat.le_refl 4) (by omega) (by omega)
  refine (hgc.rename (fun _ => rfl) fun _ => rfl).congr fun m => ?_
  show (((True ∧ True) ∧ True) ∧ m.version < 2 ^ 32) ∧ True ↔ m.version < 2 ^ 32
  simp only [true_and, and_true]

theorem lawful_knowledgeMatrix (nesting : Nat) :
    KnowledgeMatrix.message.Lawful KnowledgeMatrix.Fits (nesting + 3) 2 := by
  have hentry := Message.lawful_entry (Kind.lawful_string (nesting + 2))
    (Kind.lawful_message (lawful_vectorClock nesting))
  have hfield := (Message.lawful_unit (nesting + 3) 1).field (Field.lawful_map hentry)
    (Nat.le_refl 1) (by omega) (by omega)
  refine (hfield.rename (fun _ => rfl) fun _ => rfl).congr fun m => ?_
  show True ∧ (∀ n v, _ → True ∧ VectorClock.Fits v) ↔ ∀ n v, _ → VectorClock.Fits v
  simp only [true_and]

theorem lawful_crdtOp (nesting : Nat) : CrdtOp.message.Lawful CrdtOp.Fits (nesting + 4) 7 := by
  have hstring := Field.lawful_plain (Kind.lawful_string (nesting + 4))
  have hknowledge := Field.lawful_optional (Kind.lawful_message (lawful_vectorClock (nesting + 2)))
  have hmatrix := Field.lawful_optional (Kind.lawful_message (lawful_knowledgeMatrix nesting))
  have hid := (Message.lawful_unit (nesting + 4) 1).field hstring (Nat.le_refl 1)
    (by omega) (by omega)
  have hpayload := hid.field (Field.lawful_plain (Kind.lawful_bytes (nesting + 4)))
    (Nat.le_refl 2) (by omega) (by omega)
  have horigin := hpayload.field hstring (by omega : 3 ≤ 4) (by omega) (by omega)
  have hrequester := horigin.field hknowledge (Nat.le_refl 5) (by omega) (by omega)
  have hall := hrequester.field hmatrix (Nat.le_refl 6) (by omega) (by omega)
  refine (hall.rename (fun _ => rfl) fun _ => rfl).congr fun m => ?_
  show ((((True ∧ True) ∧ True) ∧ True) ∧ _) ∧ _ ↔ _ ∧ _
  simp only [true_and]

theorem lawful_crdtPullRequest (nesting : Nat) :
    CrdtPullRequest.message.Lawful CrdtPullRequest.Fits (nesting + 2) 5 := by
  have hstring := Field.lawful_plain (Kind.lawful_string (nesting + 2))
  have hknowledge := Field.lawful_optional (Kind.lawful_message (lawful_vectorClock nesting))
  have hid := (Message.lawful_unit (nesting + 2) 1).field hstring (Nat.le_refl 1)
    (by omega) (by omega)
  have horigin := hid.field hstring (Nat.le_refl 2) (by omega) (by omega)
  have hvector := horigin.field hknowledge (Nat.le_refl 3) (by omega) (by omega)
  have hall := hvector.field (Field.lawful_plain (Kind.lawful_bool (nesting + 2)))
    (Nat.le_refl 4) (by omega) (by omega)
  refine (hall.rename (fun _ => rfl) fun _ => rfl).congr fun m => ?_
  show (((True ∧ True) ∧ True) ∧ _) ∧ True ↔ _
  simp only [true_and, and_true]
  rfl

theorem lawful_envelope : Envelope.message.Lawful Envelope.Fits 5 6 := by
  have hhandshake :=
    Message.lawful_oneof (Kind.lawful_message (lawful_handshake 4)) (Nat.le_refl 1) (by omega)
  have hop := hhandshake.alternative rfl (Kind.lawful_message (lawful_crdtOp 0))
    (by omega : 2 ≤ 4) (by omega) (by omega)
  have hall := hop.alternative rfl (Kind.lawful_message (lawful_crdtPullRequest 2))
    (Nat.le_refl 5) (by omega) (by omega)
  refine (hall.rename (fun o => ?_) fun m => ?_).congr fun m => ?_
  · rcases o with _ | (_ | _) | _ <;> rfl
  · rcases m with ⟨_ | _ | _ | _⟩ <;> rfl
  · rcases m with ⟨_ | _ | _ | _⟩
      <;> simp [Envelope.Fits, Payload.unpack, Payload.Fits, Message.Either]

theorem lawful_protoClientCommand : ProtoClientCommand.message.Lawful (fun _ => True) 0 7 := by
  have hadd := Message.lawful_oneof (Kind.lawful_string 0) (Nat.le_refl 1) (by omega)
  have hremove := hadd.alternative rfl (Kind.lawful_string 0) (Nat.le_refl 2) (by omega) (by omega)
  have hstate := hremove.alternative rfl (Kind.lawful_bool 0) (Nat.le_refl 3) (by omega) (by omega)
  have hinternals := hstate.alternative rfl (Kind.lawful_bool 0) (Nat.le_refl 4)
    (by omega) (by omega)
  have hmatrix := hinternals.alternative rfl (Kind.lawful_bool 0) (Nat.le_refl 5)
    (by omega) (by omega)
  have hall := hmatrix.alternative rfl (Kind.lawful_bool 0) (Nat.le_refl 6) (by omega) (by omega)
  refine (hall.rename (fun o => ?_) fun m => ?_).congr fun m => ?_
  · rcases o with _ | ((((_ | _) | _) | _) | _) | _ <;> rfl
  · rcases m with ⟨_ | _ | _ | _ | _ | _ | _⟩ <;> rfl
  · rcases m with ⟨_ | _ | _ | _ | _ | _ | _⟩ <;> simp [Command.unpack, Message.Either]

/-! ## Round trips -/

/-- An envelope that the program can hold. -/
abbrev ValidEnvelope : Type := { m : Envelope // m.Fits ∧ m.encodeToVec.length < 2 ^ 64 }

namespace Envelope

variable {m : Envelope} {bytes : List UInt8}

theorem decode_encodeToVec (h : m.Fits) (hlen : m.encodeToVec.length < 2 ^ 64) :
    decode m.encodeToVec = some m := by
  have hlimit : 5 ≤ RECURSION_LIMIT := by decide
  exact lawful_envelope.decode_encode hlimit h hlen

theorem fits_of_decode (h : decode bytes = some m) : m.Fits ∧ m.encodeToVec.length ≤ bytes.length :=
  lawful_envelope.of_decode h

/-- The codec of the framing. -/
def codec : Protocol.Codec ValidEnvelope where
  encode e := e.1.encodeToVec
  decode bytes :=
    match h : decode bytes with
    | none => none
    | some m =>
      if hlen : m.encodeToVec.length < 2 ^ 64 then some ⟨m, (fits_of_decode h).1, hlen⟩ else none
  encodedLen e := e.1.encodeToVec.length
  decode_encode e := by
    have hdecode := decode_encodeToVec e.2.1 e.2.2
    split
    · next hnone =>
      rw [hdecode] at hnone
      cases hnone
    · next m hm =>
      rw [hdecode] at hm
      obtain rfl := Option.some.inj hm
      rw [dif_pos e.2.2]
  eq_of_prefix e bytes hprefix hdecode := by
    refine hprefix.eq_of_length_le ?_
    split at hdecode
    · cases hdecode
    · next m hm =>
      split at hdecode
      · obtain rfl := Option.some.inj hdecode
        exact (fits_of_decode hm).2
      · cases hdecode
  encodedLen_eq _ := rfl

end Envelope

/-- **Envelopes survive the wire**: what is sent is what is received, and what is received in
whatever encoding is in range, can be sent on in the room it had, and arrives as the same
envelope. -/
theorem envelope_round_trip :
    (∀ m : Envelope, m.Fits → m.encodeToVec.length < 2 ^ 64 →
      Envelope.decode m.encodeToVec = some m) ∧
      ∀ (bytes : List UInt8) (m : Envelope), bytes.length < 2 ^ 64 →
      Envelope.decode bytes = some m →
        m.Fits ∧ m.encodeToVec.length ≤ bytes.length ∧ Envelope.decode m.encodeToVec = some m := by
  refine ⟨fun m h hlen => Envelope.decode_encodeToVec h hlen, fun bytes m hbytes hdecode => ?_⟩
  obtain ⟨hfits, hlen⟩ := Envelope.fits_of_decode hdecode
  exact ⟨hfits, hlen, Envelope.decode_encodeToVec hfits (by omega)⟩

/-- A pull request, written by the program, and with an unknown field before it. -/
theorem envelope_round_trip_pullRequest :
    ∃ m : Envelope, m.payload = some (.crdtPullRequest { crdtId := "x" }) ∧
    Envelope.decode m.encodeToVec = some m ∧ Envelope.decode [72, 0, 42, 3, 10, 1, 120] = some m ∧
      m.Fits ∧
      m.encodeToVec.length ≤ 7 := by
  have hfits : Envelope.Fits ⟨some (.crdtPullRequest { crdtId := "x" })⟩ := by
    simp [Envelope.Fits, Payload.Fits, CrdtPullRequest.Fits]
  have hforeign : Envelope.decode [72, 0, 42, 3, 10, 1, 120] =
      some ⟨some (.crdtPullRequest { crdtId := "x" })⟩ := by
    decide +kernel
  obtain ⟨-, hlen, -⟩ := envelope_round_trip.2 _ _ (by decide) hforeign
  exact ⟨_, rfl, envelope_round_trip.1 _ hfits (by decide +kernel), hforeign, hfits, hlen⟩

end Proto

end ExperimentalCrdt
