import ExperimentalCrdt.Lib.Bytes
import Mathlib.Data.List.Infix

/-!
# Framing

`network/protocol.rs`: an envelope is written as its length in four bytes, most significant first,
and its encoding. The writer takes every length, modulo `2 ^ 32`; the reader refuses lengths above
`MAX_FRAME_LEN`, and it takes a stream that ends within the four bytes for one that is closed.

A stream is the list of bytes up to its end. `framing_iff` says of every list of envelopes and of
every place where the stream may be cut when the envelopes that are complete come out, followed by
`Ok(None)` or an error as it should be.
-/

namespace ExperimentalCrdt

namespace Protocol

/-- The encoding of the envelopes. A part of an encoding may decode, but not to the same
envelope. -/
structure Codec (M : Type) where
  encode : M → List UInt8
  decode : List UInt8 → Option M
  encodedLen : M → Nat
  decode_encode : ∀ envelope, decode (encode envelope) = some envelope
  eq_of_prefix : ∀ envelope bytes, bytes <+: encode envelope → decode bytes = some envelope →
    bytes = encode envelope
  encodedLen_eq : ∀ envelope, encodedLen envelope = (encode envelope).length

def MAX_FRAME_LEN : UInt32 := 16 * 1024 * 1024

inductive ReadError where
  | frameTooLarge (len : UInt32)
  | unexpectedEof
  | decode
deriving DecidableEq

variable {M : Type}

def putU32 (n : UInt32) : List UInt8 := Bytes.toBigEndian 4 n.toNat

def fromBeBytes (bytes : List UInt8) : UInt32 := UInt32.ofNat (Bytes.ofBigEndian bytes)

/-- What a successful call writes to the stream. -/
def writeEnvelope (codec : Codec M) (envelope : M) : List UInt8 :=
  putU32 (UInt32.ofNat (codec.encodedLen envelope)) ++ codec.encode envelope

def writeEnvelopes (codec : Codec M) (envelopes : List M) : List UInt8 :=
  envelopes.flatMap (writeEnvelope codec)

/-- So many bytes, or the end of the stream comes first. -/
def readExact (n : Nat) (stream : List UInt8) : Option (List UInt8 × List UInt8) :=
  if n ≤ stream.length then some (stream.take n, stream.drop n) else none

/-- The part of `read_envelope` after the length prefix; an envelope comes with the rest of the
stream. -/
def readPayload (codec : Codec M) (len : UInt32) (stream : List UInt8) :
    Except ReadError (Option (M × List UInt8)) :=
  if MAX_FRAME_LEN < len then .error (.frameTooLarge len)
  else
    match readExact len.toNat stream with
    | none => .error .unexpectedEof
    | some (payload, rest) =>
      match codec.decode payload with
      | none => .error .decode
      | some envelope => .ok (some (envelope, rest))

def readEnvelope (codec : Codec M) (stream : List UInt8) :
    Except ReadError (Option (M × List UInt8)) :=
  match readExact 4 stream with
  | none => .ok none
  | some (lenBuf, stream) => readPayload codec (fromBeBytes lenBuf) stream

variable {codec : Codec M} {envelope : M} {stream rest : List UInt8} {len : UInt32} {n : Nat}

theorem readExact_eq_some_iff {p : List UInt8 × List UInt8} :
    readExact n stream = some p ↔ n ≤ stream.length ∧ (stream.take n, stream.drop n) = p :=
  Option.ite_none_right_eq_some.trans (and_congr_right fun _ => Option.some_inj)

theorem readPayload_eq_ok_iff {result : Option (M × List UInt8)} :
    readPayload codec len stream = .ok result ↔
    len ≤ MAX_FRAME_LEN ∧ len.toNat ≤ stream.length ∧
      ∃ envelope, codec.decode (stream.take len.toNat) = some envelope ∧
      result = some (envelope, stream.drop len.toNat) := by
  unfold readPayload
  split
  · next hlarge =>
    refine iff_of_false (fun h => nomatch h) fun h => ?_
    exact absurd hlarge (UInt32.not_lt.mpr h.1)
  · next hlen =>
    rw [UInt32.not_lt] at hlen
    split
    · next hnone =>
      refine iff_of_false (fun h => nomatch h) fun h => ?_
      rw [readExact_eq_some_iff.mpr ⟨h.2.1, rfl⟩] at hnone
      cases hnone
    · next payload rest hsome =>
      obtain ⟨hle, heq⟩ := readExact_eq_some_iff.mp hsome
      obtain ⟨rfl, rfl⟩ := Prod.mk.inj heq
      split
      · next hdecode =>
        refine iff_of_false (fun h => nomatch h) ?_
        rintro ⟨-, -, e, he, -⟩
        rw [hdecode] at he
        cases he
      · next e he =>
        constructor
        · intro h
          exact ⟨hlen, hle, e, he, (Except.ok.inj h).symm⟩
        · rintro ⟨-, -, e', he', rfl⟩
          rw [he] at he'
          rw [Option.some.inj he']

theorem length_lt_of_readEnvelope (h : readEnvelope codec stream = .ok (some (envelope, rest))) :
    rest.length < stream.length := by
  unfold readEnvelope at h
  split at h
  · cases h
  · next lenBuf payload hsome =>
    obtain ⟨hle, heq⟩ := readExact_eq_some_iff.mp hsome
    obtain ⟨-, rfl⟩ := Prod.mk.inj heq
    obtain ⟨-, -, e, -, hrest⟩ := readPayload_eq_ok_iff.mp h
    obtain ⟨-, rfl⟩ := Prod.mk.inj (Option.some.inj hrest)
    rw [List.length_drop, List.length_drop]
    omega

/-- Read until the stream is closed, or there is an error. -/
def readEnvelopes (codec : Codec M) (stream : List UInt8) : List M × Option ReadError :=
  match _h : readEnvelope codec stream with
  | .ok none => ([], none)
  | .error e => ([], some e)
  | .ok (some (envelope, rest)) =>
    (envelope :: (readEnvelopes codec rest).1, (readEnvelopes codec rest).2)
termination_by stream.length
decreasing_by exact length_lt_of_readEnvelope _h

theorem readEnvelopes_of_none (h : readEnvelope codec stream = .ok none) :
    readEnvelopes codec stream = ([], none) := by
  rw [readEnvelopes]
  split
  · rfl
  · next h' => rw [h] at h'; cases h'
  · next h' => rw [h] at h'; cases h'

theorem readEnvelopes_of_error {e : ReadError} (h : readEnvelope codec stream = .error e) :
    readEnvelopes codec stream = ([], some e) := by
  rw [readEnvelopes]
  split
  · next h' => rw [h] at h'; cases h'
  · next h' => rw [h] at h'; cases h'; rfl
  · next h' => rw [h] at h'; cases h'

theorem readEnvelopes_of_some (h : readEnvelope codec stream = .ok (some (envelope, rest))) :
    readEnvelopes codec stream =
      (envelope :: (readEnvelopes codec rest).1, (readEnvelopes codec rest).2) := by
  rw [readEnvelopes]
  split
  · next h' => rw [h] at h'; cases h'
  · next h' => rw [h] at h'; cases h'
  · next h' => rw [h] at h'; cases h'; rfl

/-! ## One frame -/

/-- What the four bytes say of the length of the encoding. -/
def announced (codec : Codec M) (envelope : M) : UInt32 := UInt32.ofNat (codec.encodedLen envelope)

theorem length_putU32 (n : UInt32) : (putU32 n).length = 4 := Bytes.length_toBigEndian 4 n.toNat

theorem fromBeBytes_putU32 (n : UInt32) : fromBeBytes (putU32 n) = n := by
  have hlt : n.toNat < 256 ^ 4 := n.toNat_lt
  unfold fromBeBytes putU32
  rw [Bytes.ofBigEndian_toBigEndian, Nat.mod_eq_of_lt hlt, UInt32.ofNat_toNat]

theorem readEnvelope_short (h : stream.length < 4) : readEnvelope codec stream = .ok none := by
  unfold readEnvelope readExact
  rw [if_neg (by omega)]

theorem readEnvelope_putU32 :
    readEnvelope codec (putU32 len ++ stream) = readPayload codec len stream := by
  have hheader : readExact 4 (putU32 len ++ stream) = some (putU32 len, stream) := by
    refine readExact_eq_some_iff.mpr ⟨?_, ?_⟩
    · rw [List.length_append, length_putU32]
      omega
    · rw [← length_putU32 len, List.take_left, List.drop_left]
  unfold readEnvelope
  rw [hheader]
  simp only
  rw [fromBeBytes_putU32]

theorem length_writeEnvelope :
    (writeEnvelope codec envelope).length = 4 + codec.encodedLen envelope := by
  unfold writeEnvelope
  rw [List.length_append, length_putU32, codec.encodedLen_eq]

theorem toNat_announced (h : codec.encodedLen envelope ≤ MAX_FRAME_LEN.toNat) :
    (announced codec envelope).toNat = codec.encodedLen envelope := by
  have hmax : MAX_FRAME_LEN.toNat = 16777216 := by decide
  unfold announced
  rw [UInt32.toNat_ofNat_of_lt']
  show _ < 4294967296
  omega

theorem readEnvelope_writeEnvelope (h : codec.encodedLen envelope ≤ MAX_FRAME_LEN.toNat)
    (rest : List UInt8) :
    readEnvelope codec (writeEnvelope codec envelope ++ rest) = .ok (some (envelope, rest)) := by
  have hlen : (announced codec envelope).toNat = (codec.encode envelope).length := by
    rw [toNat_announced h, codec.encodedLen_eq]
  unfold writeEnvelope
  rw [List.append_assoc, readEnvelope_putU32]
  refine readPayload_eq_ok_iff.mpr ⟨?_, ?_, envelope, ?_, ?_⟩
  · show announced codec envelope ≤ MAX_FRAME_LEN
    rw [UInt32.le_iff_toNat_le, toNat_announced h]
    exact h
  · show (announced codec envelope).toNat ≤ _
    rw [hlen, List.length_append]
    omega
  · show codec.decode (List.take (announced codec envelope).toNat _) = _
    rw [hlen, List.take_left]
    exact codec.decode_encode envelope
  · show _ = some (envelope, List.drop (announced codec envelope).toNat _)
    rw [hlen, List.drop_left]

theorem readEnvelope_oversized (h : MAX_FRAME_LEN.toNat < codec.encodedLen envelope)
    (rest rest' : List UInt8) :
    readEnvelope codec (writeEnvelope codec envelope ++ rest) ≠ .ok (some (envelope, rest')) := by
  intro hread
  unfold writeEnvelope at hread
  rw [List.append_assoc, readEnvelope_putU32] at hread
  obtain ⟨hmax, -, e, hdecode, heq⟩ := readPayload_eq_ok_iff.mp hread
  obtain ⟨rfl, -⟩ := Prod.mk.inj (Option.some.inj heq)
  -- the announced length is a smaller one, and a part of the encoding is not taken for the envelope
  rw [UInt32.le_iff_toNat_le] at hmax
  have hlen := codec.encodedLen_eq envelope
  have hshort : (UInt32.ofNat (codec.encodedLen envelope)).toNat < (codec.encode envelope).length :=
    by omega
  rw [List.take_append_of_le_length (le_of_lt hshort)] at hdecode
  have hwhole := congrArg List.length (codec.eq_of_prefix envelope _ (List.take_prefix _ _) hdecode)
  rw [List.length_take] at hwhole
  omega

/-! ## Where the stream is cut -/

/-- The envelopes that are complete in the first `n` bytes, and the one that is cut with what there
is of it. -/
def cutAt (codec : Codec M) : List M → Nat → List M × Option (M × Nat)
  | [], _ => ([], none)
  | envelope :: envelopes, n =>
    if n = 0 then ([], none)
    else if n < (writeEnvelope codec envelope).length then ([], some (envelope, n))
    else
      (envelope :: (cutAt codec envelopes (n - (writeEnvelope codec envelope).length)).1,
        (cutAt codec envelopes (n - (writeEnvelope codec envelope).length)).2)

/-- What is read of the first `n` bytes are the complete envelopes, and then `Ok(None)` at the end
of a frame and an error within one. -/
def Framed (codec : Codec M) (envelopes : List M) (n : Nat) : Prop :=
  (readEnvelopes codec ((writeEnvelopes codec envelopes).take n)).1 = (cutAt codec envelopes n).1 ∧
    ((readEnvelopes codec ((writeEnvelopes codec envelopes).take n)).2 = none ↔
      (cutAt codec envelopes n).2 = none)

/-- The length of the envelope does not fit into the four bytes, and what these say announces a part
of the encoding that is there in the first `n` bytes of the frame and decodes. -/
def Misread (codec : Codec M) (envelope : M) (n : Nat) : Prop :=
  (announced codec envelope).toNat < codec.encodedLen envelope ∧
    announced codec envelope ≤ MAX_FRAME_LEN ∧
    4 + (announced codec envelope).toNat ≤ n ∧
      ∃ other, codec.decode ((codec.encode envelope).take (announced codec envelope).toNat) =
        some other

/-- No complete envelope is too large, and a frame is not cut within the length, nor misread. -/
def Readable (codec : Codec M) (envelopes : List M) (n : Nat) : Prop :=
  (∀ envelope ∈ (cutAt codec envelopes n).1, codec.encodedLen envelope ≤ MAX_FRAME_LEN.toNat) ∧
    ∀ envelope m, (cutAt codec envelopes n).2 = some (envelope, m) →
      4 ≤ m ∧ ¬ Misread codec envelope m

theorem misread_iff (hheader : 4 ≤ n) (hcut : n < (writeEnvelope codec envelope).length) :
    Misread codec envelope n ↔
      ∃ result, readPayload codec (announced codec envelope)
        ((codec.encode envelope).take (n - 4)) = .ok result := by
  rw [length_writeEnvelope, codec.encodedLen_eq] at hcut
  have hlen : ((codec.encode envelope).take (n - 4)).length = n - 4 := by
    rw [List.length_take]
    omega
  have htake : (announced codec envelope).toNat ≤ n - 4 →
      ((codec.encode envelope).take (n - 4)).take (announced codec envelope).toNat =
        (codec.encode envelope).take (announced codec envelope).toNat := by
    intro hle
    rw [List.take_take, Nat.min_eq_left hle]
  constructor
  · rintro ⟨-, hmax, hthere, other, hdecode⟩
    refine ⟨_, readPayload_eq_ok_iff.mpr ⟨hmax, by omega, other, ?_, rfl⟩⟩
    rw [htake (by omega)]
    exact hdecode
  · rintro ⟨result, hread⟩
    obtain ⟨hmax, hle, other, hdecode, -⟩ := readPayload_eq_ok_iff.mp hread
    rw [hlen] at hle
    rw [htake hle] at hdecode
    refine ⟨?_, hmax, by omega, other, hdecode⟩
    rw [codec.encodedLen_eq]
    omega

/-- A frame that is cut is an error, unless it is cut within the length or misread. -/
theorem readEnvelopes_cut_iff (hcut : n < (writeEnvelope codec envelope).length) :
    ((readEnvelopes codec ((writeEnvelope codec envelope).take n)).1 = [] ∧
      (readEnvelopes codec ((writeEnvelope codec envelope).take n)).2 ≠ none) ↔
        4 ≤ n ∧ ¬ Misread codec envelope n := by
  by_cases hheader : 4 ≤ n
  · have htake : (writeEnvelope codec envelope).take n =
        putU32 (announced codec envelope) ++ (codec.encode envelope).take (n - 4) := by
      show List.take n (putU32 (announced codec envelope) ++ _) = _
      rw [List.take_append, length_putU32,
        List.take_of_length_le (by rw [length_putU32]; exact hheader)]
    have hread : readEnvelope codec ((writeEnvelope codec envelope).take n) =
        readPayload codec (announced codec envelope) ((codec.encode envelope).take (n - 4)) := by
      rw [htake, readEnvelope_putU32]
    rw [misread_iff hheader hcut, ← hread]
    cases hresult : readEnvelope codec ((writeEnvelope codec envelope).take n) with
    | error e =>
      rw [readEnvelopes_of_error hresult]
      simp [hheader]
    | ok result =>
      have hsome := hread.symm.trans hresult
      obtain ⟨-, -, other, -, rfl⟩ := readPayload_eq_ok_iff.mp hsome
      rw [readEnvelopes_of_some hresult]
      simp
  · have hshort : ((writeEnvelope codec envelope).take n).length < 4 := by
      rw [List.length_take]
      omega
    rw [readEnvelopes_of_none (readEnvelope_short hshort)]
    simp [hheader]

/-- **When the frames are read back**, step by step through the frames. -/
theorem framed_iff (envelopes : List M) : ∀ n, Framed codec envelopes n ↔
    Readable codec envelopes n := by
  induction envelopes with
  | nil =>
    intro n
    have hread : readEnvelopes codec ((writeEnvelopes codec []).take n) = ([], none) := by
      refine readEnvelopes_of_none (readEnvelope_short ?_)
      simp [writeEnvelopes]
    unfold Framed Readable
    rw [hread]
    simp [cutAt]
  | cons envelope envelopes ih =>
    intro n
    have hwrite : writeEnvelopes codec (envelope :: envelopes) =
        writeEnvelope codec envelope ++ writeEnvelopes codec envelopes := List.flatMap_cons
    unfold Framed Readable
    rw [hwrite, cutAt]
    split
    · next hzero =>
      have hread : readEnvelopes codec
          ((writeEnvelope codec envelope ++ writeEnvelopes codec envelopes).take n) =
          ([], none) := readEnvelopes_of_none (readEnvelope_short (by rw [hzero]; simp))
      rw [hread]
      simp
    · next hpos =>
      split
      · next hcut =>
        rw [List.take_append_of_le_length (le_of_lt hcut)]
        simpa using readEnvelopes_cut_iff hcut
      · next hwhole =>
        have hframe : (writeEnvelope codec envelope).length ≤ n := by omega
        rw [List.take_append, List.take_of_length_le hframe]
        by_cases hlarge : codec.encodedLen envelope ≤ MAX_FRAME_LEN.toNat
        · rw [readEnvelopes_of_some (readEnvelope_writeEnvelope hlarge _)]
          have hrest := ih (n - (writeEnvelope codec envelope).length)
          unfold Framed Readable at hrest
          simpa [hlarge] using hrest
        · refine iff_of_false ?_ fun h => hlarge (h.1 envelope List.mem_cons_self)
          rintro ⟨hfirst, -⟩
          have hne := readEnvelope_oversized (not_le.mp hlarge)
            ((writeEnvelopes codec envelopes).take (n - (writeEnvelope codec envelope).length))
          match hread : readEnvelope codec (writeEnvelope codec envelope ++
              (writeEnvelopes codec envelopes).take (n - (writeEnvelope codec envelope).length))
                  with
          | .ok none =>
            rw [readEnvelopes_of_none hread] at hfirst
            cases hfirst
          | .error e =>
            rw [readEnvelopes_of_error hread] at hfirst
            cases hfirst
          | .ok (some (other, rest)) =>
            rw [readEnvelopes_of_some hread] at hfirst
            rw [(List.cons.inj hfirst).1] at hread
            exact hne rest hread

theorem cutAt_length (envelopes : List M) :
    cutAt codec envelopes (writeEnvelopes codec envelopes).length = (envelopes, none) := by
  induction envelopes with
  | nil => rfl
  | cons envelope envelopes ih =>
    have hlen : (writeEnvelopes codec (envelope :: envelopes)).length =
        (writeEnvelope codec envelope).length + (writeEnvelopes codec envelopes).length := by
      rw [← List.length_append]
      rfl
    have hpos : (writeEnvelope codec envelope).length = 4 + codec.encodedLen envelope :=
      length_writeEnvelope
    rw [cutAt, if_neg (by omega), if_neg (by omega), hlen, Nat.add_sub_cancel_left, ih]

theorem roundTrip_iff (envelopes : List M) :
    readEnvelopes codec (writeEnvelopes codec envelopes) = (envelopes, none) ↔
    ∀ envelope ∈ envelopes, codec.encodedLen envelope ≤ MAX_FRAME_LEN.toNat := by
  have hiff : Framed codec envelopes (writeEnvelopes codec envelopes).length ↔
      Readable codec envelopes _ :=
    framed_iff envelopes _
  unfold Framed Readable at hiff
  rw [List.take_length, cutAt_length] at hiff
  rw [Prod.ext_iff]
  simpa using hiff

/-- **When framing round-trips**: the envelopes come back, followed by `Ok(None)`, exactly if none
is larger than the reader takes; and of a stream that is cut anywhere the complete ones do, followed
by an error unless the cut is between two frames, exactly if none of these is larger and the cut is
not within the four bytes of a length. -/
theorem framing_iff (codec : Codec M) (envelopes : List M) :
    (readEnvelopes codec (writeEnvelopes codec envelopes) = (envelopes, none) ↔
        ∀ envelope ∈ envelopes, codec.encodedLen envelope ≤ MAX_FRAME_LEN.toNat) ∧
      ∀ n, Framed codec envelopes n ↔ Readable codec envelopes n := by
  exact ⟨roundTrip_iff envelopes, framed_iff envelopes⟩

/-- The envelope without a payload, which is encoded as no bytes. -/
def emptyCodec : Codec Unit where
  encode _ := []
  decode bytes := if bytes = [] then some () else none
  encodedLen _ := 0
  decode_encode _ := rfl
  eq_of_prefix _ _ h _ := List.prefix_nil.mp h
  encodedLen_eq _ := rfl

/-- Envelopes that are their encoding. -/
def bytesCodec : Codec (List UInt8) where
  encode bytes := bytes
  decode bytes := some bytes
  encodedLen bytes := bytes.length
  decode_encode _ := rfl
  eq_of_prefix _ _ _ h := Option.some.inj h
  encodedLen_eq _ := rfl

/-- A stream that ends after two of the four bytes of a length reads as closed, and an envelope of
16 MiB and a byte is written and not read. -/
theorem framing_cutHeader_oversized :
    ¬ Framed emptyCodec [()] 2 ∧
      ∃ envelope, bytesCodec.encodedLen envelope = 16 * 1024 * 1024 + 1 ∧
        readEnvelopes bytesCodec (writeEnvelopes bytesCodec [envelope]) ≠ ([envelope], none) := by
  constructor
  · intro h
    have hcut : (cutAt emptyCodec [()] 2).2 = some ((), 2) := rfl
    have hheader := (((framed_iff [()] 2).mp h).2 () 2 hcut).1
    omega
  · refine ⟨List.replicate (16 * 1024 * 1024 + 1) 0, List.length_replicate, fun h => ?_⟩
    have hle := (roundTrip_iff _).mp h _ List.mem_cons_self
    rw [show bytesCodec.encodedLen _ = 16 * 1024 * 1024 + 1 from List.length_replicate] at hle
    exact absurd hle (by decide)

end Protocol

end ExperimentalCrdt
