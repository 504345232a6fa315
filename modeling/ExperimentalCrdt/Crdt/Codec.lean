import ExperimentalCrdt.Crdt.OrSet
import ExperimentalCrdt.Proto.Messages

/-!
# The set on the wire

The encodings of deltas and operations in `crdt/or_set.rs`. A delta becomes a message of the shape
in `proto/mod.rs`, in which every dot is present; a message without one of them is rejected, also if
the dot would be the default.

Counters are `u64`, and a `Vec` has at most `isize::MAX` bytes. In these bounds what is encoded
decodes again (`decodeDelta_encodeDelta`). A delta that was decoded is in them (`decodeDelta_fits`,
`length_encodeDelta_le`).
-/

namespace ExperimentalCrdt

open Wire

class ElementCodec (E : Type) where
  encodeElem : E → List UInt8
  decodeElem : List UInt8 → Option E

instance : ElementCodec String where
  encodeElem := utf8
  decodeElem := fromUtf8

/-- Why bytes are rejected: the library does, the element does, or a part is missing. -/
inductive CodecError where
  | decode
  | decodeElem
  | message (text : String)
deriving DecidableEq, Repr

def Dot.toProto (dot : Dot) : ProtoDot := { nodeId := dot.nodeId, counter := dot.counter }

def Dot.ofProto (dot : ProtoDot) : Dot := { nodeId := dot.nodeId, counter := dot.counter }

def okOr {α : Type} (value : Option α) (error : CodecError) : Except CodecError α :=
  match value with
  | none => .error error
  | some a => .ok a

/-- All counters of a delta are `u64`. -/
structure OrSetDelta.Fits {E : Type} (delta : OrSetDelta E) : Prop where
  adds : ∀ add ∈ delta.adds, add.2.counter < 2 ^ 64
  tombstones : ∀ t ∈ delta.tombstones, t.1.counter < 2 ^ 64 ∧ t.2.counter < 2 ^ 64
  context : ∀ n c, delta.context.lookup n = some c → c < 2 ^ 64
  dotCounter : delta.dotCounter < 2 ^ 64

/-- The most bytes that a `Vec` or a slice can have. -/
def ISIZE_MAX : Nat := 2 ^ 63 - 1

namespace OrSet

section codec

variable {E : Type} [ElementCodec E]

open ElementCodec

def encodeAdd (add : E × Dot) : ProtoElemDot :=
  { element := encodeElem add.1, dot := some add.2.toProto }

def encodeTombstone (t : Dot × Dot) : ProtoDotPair :=
  { addDot := some t.1.toProto, removeDot := some t.2.toProto }

def toProtoDelta (delta : OrSetDelta E) : ProtoOrSetDelta :=
  { adds := delta.adds.map encodeAdd
    tombstones := delta.tombstones.map encodeTombstone
    context := delta.context
    dotNode := delta.dotNode
    dotCounter := delta.dotCounter }

def encodeDelta (delta : OrSetDelta E) : List UInt8 := (toProtoDelta delta).encodeToVec

def decodeAdd (ed : ProtoElemDot) : Except CodecError (E × Dot) := do
  let elem ← okOr (decodeElem ed.element) .decodeElem
  let dot ← okOr ed.dot (.message "missing dot in ProtoElemDot")
  .ok (elem, .ofProto dot)

def decodeTombstone (dp : ProtoDotPair) : Except CodecError (Dot × Dot) := do
  let addDot ← okOr dp.addDot (.message "missing add_dot in ProtoDotPair")
  let removeDot ← okOr dp.removeDot (.message "missing remove_dot in ProtoDotPair")
  .ok (.ofProto addDot, .ofProto removeDot)

def decodeDelta (bytes : List UInt8) : Except CodecError (OrSetDelta E) := do
  let protoDelta ← okOr (ProtoOrSetDelta.decode bytes) .decode
  let adds ← protoDelta.adds.mapM decodeAdd
  let tombstones ← protoDelta.tombstones.mapM decodeTombstone
  .ok { adds, tombstones, context := protoDelta.context, dotNode := protoDelta.dotNode,
        dotCounter := protoDelta.dotCounter }

def toProtoOp : OrSetOp E → ProtoOrSetOp
  | .add elem => { op := some (.addElement (encodeElem elem)) }
  | .remove elem => { op := some (.removeElement (encodeElem elem)) }

def encodeOp (op : OrSetOp E) : List UInt8 := (toProtoOp op).encodeToVec

def decodeOp (bytes : List UInt8) : Except CodecError (OrSetOp E) := do
  let protoOp ← okOr (ProtoOrSetOp.decode bytes) .decode
  match protoOp.op with
  | some (.addElement b) => do
    let elem ← okOr (decodeElem b) .decodeElem
    .ok (.add elem)
  | some (.removeElement b) => do
    let elem ← okOr (decodeElem b) .decodeElem
    .ok (.remove elem)
  | none => .error (.message "empty ProtoOrSetOp")

end codec

/-! ## What is accepted -/

theorem okOr_eq_ok {α : Type} {value : Option α} {error : CodecError} {a : α} :
    okOr value error = .ok a ↔ value = some a := by
  cases value <;> simp [okOr]

theorem bind_eq_ok {α β : Type} {x : Except CodecError α} {f : α → Except CodecError β} {b : β} :
    x >>= f = .ok b ↔ ∃ a, x = .ok a ∧ f a = .ok b := by
  cases x with
  | error e => exact iff_of_false (by intro h; cases h) (by rintro ⟨a, h, -⟩; cases h)
  | ok a =>
    constructor
    · exact fun h => ⟨a, rfl, h⟩
    · rintro ⟨a', h, hb⟩
      obtain rfl := Except.ok.inj h
      exact hb

theorem mapM_eq_ok_iff {α β : Type} {f : α → Except CodecError β} {g : β → α}
    (h : ∀ a b, f a = .ok b ↔ a = g b) (l : List α) :
    ∀ l' : List β, l.mapM f = .ok l' ↔ l = l'.map g := by
  induction l with
  | nil =>
    intro l'
    cases l' with
    | nil => exact iff_of_true rfl rfl
    | cons b l' => exact iff_of_false (by intro heq; cases heq) (by simp)
  | cons a l ih =>
    intro l'
    rw [List.mapM_cons, bind_eq_ok]
    constructor
    · rintro ⟨b, hb, hrest⟩
      obtain ⟨bs, hbs, heq⟩ := bind_eq_ok.mp hrest
      obtain rfl := Except.ok.inj heq
      rw [List.map_cons, ← (h a b).mp hb, ← (ih bs).mp hbs]
    · intro heq
      cases l' with
      | nil => cases heq
      | cons b bs =>
        obtain ⟨ha, hl⟩ := List.cons.inj heq
        refine ⟨b, (h a b).mpr ha, ?_⟩
        rw [(ih bs).mpr hl]
        rfl

theorem decodeAdd_eq_ok_iff (ed : ProtoElemDot) (add : String × Dot) :
    decodeAdd ed = .ok add ↔ ed = encodeAdd add := by
  unfold decodeAdd
  rw [bind_eq_ok]
  constructor
  · rintro ⟨elem, helem, hrest⟩
    obtain ⟨dot, hdot, heq⟩ := bind_eq_ok.mp hrest
    obtain rfl := Except.ok.inj heq
    obtain ⟨element, protoDot⟩ := ed
    obtain rfl : element = utf8 elem := fromUtf8_eq_some.mp (okOr_eq_ok.mp helem)
    obtain rfl : protoDot = some dot := okOr_eq_ok.mp hdot
    rfl
  · rintro rfl
    exact ⟨add.1, okOr_eq_ok.mpr (fromUtf8_eq_some.mpr rfl), rfl⟩

theorem decodeTombstone_eq_ok_iff (dp : ProtoDotPair) (t : Dot × Dot) :
    decodeTombstone dp = .ok t ↔ dp = encodeTombstone t := by
  unfold decodeTombstone
  rw [bind_eq_ok]
  constructor
  · rintro ⟨addDot, hadd, hrest⟩
    obtain ⟨removeDot, hremove, heq⟩ := bind_eq_ok.mp hrest
    obtain rfl := Except.ok.inj heq
    obtain ⟨protoAdd, protoRemove⟩ := dp
    obtain rfl : protoAdd = some addDot := okOr_eq_ok.mp hadd
    obtain rfl : protoRemove = some removeDot := okOr_eq_ok.mp hremove
    rfl
  · rintro rfl
    exact ⟨t.1.toProto, rfl, rfl⟩

theorem decodeDelta_eq_ok_iff (bytes : List UInt8) (delta : OrSetDelta String) :
    decodeDelta bytes = .ok delta ↔ ProtoOrSetDelta.decode bytes = some (toProtoDelta delta) := by
  have hadds := mapM_eq_ok_iff decodeAdd_eq_ok_iff
  have htombstones := mapM_eq_ok_iff decodeTombstone_eq_ok_iff
  unfold decodeDelta
  rw [bind_eq_ok]
  constructor
  · rintro ⟨protoDelta, hproto, hrest⟩
    obtain ⟨adds, ha, hrest⟩ := bind_eq_ok.mp hrest
    obtain ⟨tombstones, ht, heq⟩ := bind_eq_ok.mp hrest
    obtain rfl := Except.ok.inj heq
    rw [okOr_eq_ok.mp hproto]
    unfold toProtoDelta
    rw [← (hadds _ _).mp ha, ← (htombstones _ _).mp ht]
  · intro h
    refine ⟨toProtoDelta delta, okOr_eq_ok.mpr h,
      bind_eq_ok.mpr ⟨delta.adds, (hadds _ _).mpr rfl, ?_⟩⟩
    exact bind_eq_ok.mpr ⟨delta.tombstones, (htombstones _ _).mpr rfl, rfl⟩

theorem decodeOp_encodeOp (op : OrSetOp String) (hlen : (encodeOp op).length < 2 ^ 64) :
    decodeOp (encodeOp op) = .ok op := by
  unfold decodeOp
  rw [bind_eq_ok]
  refine ⟨toProtoOp op, okOr_eq_ok.mpr ((toProtoOp op).decode_encodeToVec hlen), ?_⟩
  cases op with
  | add elem => exact bind_eq_ok.mpr ⟨elem, okOr_eq_ok.mpr (fromUtf8_eq_some.mpr rfl), rfl⟩
  | remove elem => exact bind_eq_ok.mpr ⟨elem, okOr_eq_ok.mpr (fromUtf8_eq_some.mpr rfl), rfl⟩

/-! ## Round trips -/

theorem toProtoDelta_fits_iff (delta : OrSetDelta String) :
    (toProtoDelta delta).Fits ↔ delta.Fits := by
  constructor
  · intro h
    refine ⟨fun add hadd => ?_, fun t ht => ?_, h.context, h.dotCounter⟩
    · exact h.adds _ (List.mem_map_of_mem hadd) _ rfl
    · have hpair := h.tombstones _ (List.mem_map_of_mem ht)
      exact ⟨hpair.1 _ rfl, hpair.2 _ rfl⟩
  · intro h
    refine ⟨List.forall_mem_map.mpr fun add hadd dot hdot => ?_,
      List.forall_mem_map.mpr fun t ht => ⟨?_, ?_⟩,
      h.context, h.dotCounter⟩
    · obtain rfl := Option.some.inj hdot
      exact h.adds add hadd
    · intro dot hdot
      obtain rfl := Option.some.inj hdot
      exact (h.tombstones t ht).1
    · intro dot hdot
      obtain rfl := Option.some.inj hdot
      exact (h.tombstones t ht).2

theorem decodeDelta_encodeDelta {delta : OrSetDelta String} (h : delta.Fits)
    (hlen : (encodeDelta delta).length < 2 ^ 64) :
    decodeDelta (encodeDelta delta) =
      .ok { delta with context := AList.ofPairs delta.context.toPairs } := by
  rw [decodeDelta_eq_ok_iff]
  exact ProtoOrSetDelta.decode_encodeToVec ((toProtoDelta_fits_iff delta).mpr h) hlen

theorem decodeDelta_fits {bytes : List UInt8} {delta : OrSetDelta String}
    (h : decodeDelta bytes = .ok delta) :
    delta.Fits := by
  rw [decodeDelta_eq_ok_iff] at h
  exact (toProtoDelta_fits_iff delta).mp (ProtoOrSetDelta.decode_fits h)

/-- An accepted delta takes no more room than it came in. -/
theorem length_encodeDelta_le {bytes : List UInt8} {delta : OrSetDelta String}
    (h : decodeDelta bytes = .ok delta) :
    (encodeDelta delta).length ≤ bytes.length := by
  rw [decodeDelta_eq_ok_iff] at h
  exact ProtoOrSetDelta.decode_length h

/-- Up to the order in which the map of the context is kept. -/
def SameDelta (d d' : OrSetDelta String) : Prop :=
  d.adds = d'.adds ∧ d.tombstones = d'.tombstones ∧
    (∀ n, d.context.lookup n = d'.context.lookup n) ∧
    d.dotNode = d'.dotNode ∧ d.dotCounter = d'.dotCounter

/-- Within the range of `u64` and of what a `Vec` holds, deltas and operations come back from their
bytes, and whatever is accepted as a delta can be sent on as it was understood. -/
theorem codec_round_trip :
    (∀ delta : OrSetDelta String, delta.Fits → (encodeDelta delta).length ≤ ISIZE_MAX →
      ∃ decoded, decodeDelta (encodeDelta delta) = .ok decoded ∧ SameDelta decoded delta) ∧
    (∀ op : OrSetOp String, (encodeOp op).length ≤ ISIZE_MAX → decodeOp (encodeOp op) = .ok op) ∧
    ∀ bytes (delta : OrSetDelta String), bytes.length ≤ ISIZE_MAX → decodeDelta bytes = .ok delta →
      ∃ decoded, decodeDelta (encodeDelta delta) = .ok decoded ∧ SameDelta decoded delta := by
  have hmax : ISIZE_MAX < 2 ^ 64 := by decide
  have htrip : ∀ delta : OrSetDelta String, delta.Fits → (encodeDelta delta).length ≤ ISIZE_MAX →
      ∃ decoded, decodeDelta (encodeDelta delta) = .ok decoded ∧ SameDelta decoded delta := by
    intro delta hfits hlen
    refine ⟨_, decodeDelta_encodeDelta hfits (Nat.lt_of_le_of_lt hlen hmax), rfl, rfl, ?_, rfl, rfl⟩
    exact AList.lookup_ofPairs_toPairs delta.context
  refine ⟨htrip, fun op hlen => decodeOp_encodeOp op (Nat.lt_of_le_of_lt hlen hmax), ?_⟩
  intro bytes delta hlen hdecode
  exact htrip delta (decodeDelta_fits hdecode) ((length_encodeDelta_le hdecode).trans hlen)

/-- An empty element with a zero dot, the greatest counter, and a node that is said to have done
nothing. -/
theorem codec_round_trip_defaults :
    let delta : OrSetDelta String :=
      { adds := [("", ⟨"", 0⟩)]
        tombstones := [(⟨"A", 2 ^ 64 - 1⟩, ⟨"B", 1⟩)]
        context := AList.ofPairs [("A", 0)]
        dotNode := ""
        dotCounter := 0 }
    (∃ decoded, decodeDelta (encodeDelta delta) = .ok decoded ∧ SameDelta decoded delta) ∧
      decodeOp (encodeOp (.add "" : OrSetOp String)) = .ok (.add "") ∧
      ∃ decoded : OrSetDelta String, decodeDelta (encodeDelta delta) = .ok decoded ∧
        ∃ decoded', decodeDelta (encodeDelta decoded) = .ok decoded' ∧
            SameDelta decoded' decoded := by
  intro delta
  have hfits : delta.Fits := by
    refine ⟨by decide, by decide, fun n c hlookup => ?_, by decide⟩
    have hc := AList.lookup_foldl_insert_some hlookup
    simp at hc
    omega
  have hlen : (encodeDelta delta).length ≤ ISIZE_MAX := by decide +kernel
  refine ⟨codec_round_trip.1 delta hfits hlen,
    codec_round_trip.2.1 (.add "") (by decide +kernel), ?_⟩
  have hdecode := decodeDelta_encodeDelta hfits (Nat.lt_of_le_of_lt hlen (by decide))
  exact ⟨_, hdecode, codec_round_trip.2.2 (encodeDelta delta) _ hlen hdecode⟩

end OrSet

end ExperimentalCrdt
