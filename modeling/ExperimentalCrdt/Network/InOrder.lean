import ExperimentalCrdt.Network.TcpConnection

/-!
# What arrives over a connection

However the bytes are cut into pieces and however the tasks of the two sides interleave, what a side
reads is the beginning of what the other was given to send, and the peer it registers is the one it
talks to (`connection_in_order`). This holds until the last byte of a connection that breaks, and
while it is torn down.

The invariant is about one direction: what was sent is what was read and an `unread` rest, and the
bytes on the way, together with what the sender still has, are the frames of the rest, or their
beginning once the sender has stopped (`Carried`).
-/

namespace ExperimentalCrdt

namespace TcpConnection

open Protocol Proto
open Transition (Reachable)

/-! ## The front of the stream -/

def frames (envelopes : List ValidEnvelope) : List UInt8 := envelopes.flatMap frame

/-- What the four bytes of a frame say. -/
def announcedSize (envelope : ValidEnvelope) : UInt32 := announced Envelope.codec envelope

theorem frame_eq (envelope : ValidEnvelope) :
    frame envelope = putU32 (announcedSize envelope) ++ envelope.1.encodeToVec := rfl

theorem frames_cons (envelope : ValidEnvelope) (rest : List ValidEnvelope) :
    frames (envelope :: rest) = frame envelope ++ frames rest := List.flatMap_cons

theorem frames_append (l l' : List ValidEnvelope) : frames (l ++ l') = frames l ++ frames l' :=
  List.flatMap_append

theorem frames_singleton (envelope : ValidEnvelope) : frames [envelope] = frame envelope := by
  rw [frames_cons]
  exact List.append_nil _

theorem toNat_announcedSize {envelope : ValidEnvelope} (h : size envelope < 2 ^ 32) :
    (announcedSize envelope).toNat = size envelope := UInt32.toNat_ofNat_of_lt' h

theorem take_putU32 (n : UInt32) (rest : List UInt8) : (putU32 n ++ rest).take 4 = putU32 n := by
  rw [← length_putU32 n]
  exact List.take_left

theorem putU32_inj {m n : UInt32} (h : putU32 m = putU32 n) : m = n := by
  rw [← fromBeBytes_putU32 m, h, fromBeBytes_putU32]

theorem header_of_prefix {bytes : List UInt8} {unread : List ValidEnvelope}
    (h : bytes <+: frames unread) (hlen : 4 ≤ bytes.length) :
    ∃ envelope rest, unread = envelope :: rest ∧
      bytes.take 4 = putU32 (announcedSize envelope) := by
  cases unread with
  | nil =>
    have hle := h.length_le
    change bytes.length ≤ 0 at hle
    omega
  | cons envelope rest =>
    refine ⟨envelope, rest, rfl, ?_⟩
    obtain ⟨tail, htail⟩ := h
    have htake := congrArg (List.take 4) htail
    rw [List.take_append_of_le_length hlen, frames_cons, frame_eq, List.append_assoc, take_putU32]
      at htake
    exact htake

theorem payload_of_prefix {bytes : List UInt8} {len : UInt32} {unread : List ValidEnvelope}
    (h : putU32 len ++ bytes <+: frames unread) (hsize : ∀ e ∈ unread, size e < 2 ^ 32) :
    ∃ envelope rest, unread = envelope :: rest ∧ len.toNat = size envelope ∧
      bytes <+: envelope.1.encodeToVec ++ frames rest := by
  have hlen : 4 ≤ (putU32 len ++ bytes).length := by
    rw [List.length_append, length_putU32]
    omega
  obtain ⟨envelope, rest, rfl, htake⟩ := header_of_prefix h hlen
  rw [take_putU32] at htake
  obtain rfl := putU32_inj htake
  refine ⟨envelope, rest, rfl, toNat_announcedSize (hsize _ List.mem_cons_self), ?_⟩
  rw [frames_cons, frame_eq, List.append_assoc] at h
  exact (List.prefix_append_right_inj _).mp h

/-! ## One direction -/

def headerBytes : Option UInt32 → List UInt8
  | none => []
  | some len => putU32 len

/-- What the receiver has not read of the bytes that were written. -/
def onTheWay (receiver : Endpoint) (p : Pipe) : List UInt8 :=
  headerBytes receiver.header ++ (p.arrived ++ p.flight)

/-- What the sender has not written. -/
def unwritten (sender : Endpoint) : List UInt8 := sender.outgoing ++ frames sender.rx

/-- The envelopes `unread` are on their way. -/
structure Carried (sender receiver : Endpoint) (p : Pipe) (unread : List ValidEnvelope) : Prop where
  sent : sender.sent = receiver.received ++ unread
  front : onTheWay receiver p ++ unwritten sender <+: frames unread
  whole : sender.writing = true → onTheWay receiver p ++ unwritten sender = frames unread

/-- The sender writes no more than it would have, and keeps what it has to write while it is
there. -/
structure SendKeeps (e e' : Endpoint) : Prop where
  sent : e'.sent = e.sent
  front : unwritten e' <+: unwritten e
  whole : e'.writing = true → e.writing = true ∧ unwritten e' = unwritten e

/-- The sender has one more envelope to write. -/
structure SendGrows (e e' : Endpoint) (envelope : ValidEnvelope) : Prop where
  sent : e'.sent = e.sent ++ [envelope]
  writing : e.writing = true
  unwritten : unwritten e' = unwritten e ++ frame envelope

section Carried

variable {e e' r r' : Endpoint} {p : Pipe} {unread : List ValidEnvelope} {envelope : ValidEnvelope}

theorem Carried.keeps (h : Carried e r p unread) (hk : SendKeeps e e') : Carried e' r p unread where
  sent := hk.sent.trans h.sent
  front := (List.prefix_append_right_inj _).mpr hk.front |>.trans h.front
  whole hwriting := by
    obtain ⟨hbefore, heq⟩ := hk.whole hwriting
    rw [heq]
    exact h.whole hbefore

theorem Carried.grows (h : Carried e r p unread) (hg : SendGrows e e' envelope) :
    Carried e' r p (unread ++ [envelope]) := by
  have heq : onTheWay r p ++ unwritten e' = frames (unread ++ [envelope]) := by
    rw [hg.unwritten, ← List.append_assoc, h.whole hg.writing, frames_append, frames_singleton]
  exact ⟨by rw [hg.sent, h.sent, List.append_assoc], heq ▸ List.prefix_rfl, fun _ => heq⟩

theorem Carried.receiver (h : Carried e r p unread) (hreceived : r'.received = r.received)
    (hheader : r'.header = r.header) :
    Carried e r' p unread := by
  have hway : onTheWay r' p = onTheWay r p := by
    unfold onTheWay
    rw [hheader]
  exact ⟨by rw [h.sent, hreceived], hway ▸ h.front, fun hw => hway ▸ h.whole hw⟩

theorem Carried.write (h : Carried e r p unread) (k : Nat) :
    Carried { e with outgoing := e.outgoing.drop k } r
      { p with flight := p.flight ++ e.outgoing.take k } unread := by
  have heq : onTheWay r { p with flight := p.flight ++ e.outgoing.take k } ++
      unwritten { e with outgoing := e.outgoing.drop k } = onTheWay r p ++ unwritten e := by
    unfold onTheWay unwritten
    simp only [List.append_assoc]
    rw [← List.append_assoc (e.outgoing.take k), List.take_append_drop]
  exact ⟨h.sent, heq ▸ h.front, fun hw => heq ▸ h.whole hw⟩

theorem Carried.arrive (h : Carried e r p unread) (k : Nat) :
    Carried e r ⟨p.flight.drop k, p.arrived ++ p.flight.take k⟩ unread := by
  have heq : onTheWay r ⟨p.flight.drop k, p.arrived ++ p.flight.take k⟩ = onTheWay r p := by
    unfold onTheWay
    rw [List.append_assoc, List.take_append_drop]
  exact ⟨h.sent, heq ▸ h.front, fun hw => heq ▸ h.whole hw⟩

theorem Carried.header (h : Carried e r p unread) {lenBuf rest : List UInt8}
    (hnone : r.header = none) (hread : readExact 4 p.arrived = some (lenBuf, rest)) :
    Carried e { r with header := some (fromBeBytes lenBuf) } { p with arrived := rest } unread := by
  obtain ⟨hlen, heq⟩ := readExact_eq_some_iff.mp hread
  obtain ⟨rfl, rfl⟩ := Prod.mk.inj heq
  have hfront := h.front
  unfold onTheWay at hfront
  rw [hnone] at hfront
  obtain ⟨envelope, rest, -, htake⟩ := header_of_prefix ((List.prefix_append _ _).trans hfront) (by
    rw [headerBytes, List.nil_append, List.length_append]
    omega)
  rw [headerBytes, List.nil_append, List.take_append_of_le_length hlen] at htake
  have hway : onTheWay { r with header := some (fromBeBytes (p.arrived.take 4)) }
      { p with arrived := p.arrived.drop 4 } =
      onTheWay r p := by
    unfold onTheWay
    dsimp only
    rw [hnone, htake, fromBeBytes_putU32]
    show putU32 _ ++ _ = _
    rw [← htake, ← List.append_assoc, List.take_append_drop]
    rfl
  exact ⟨h.sent, hway ▸ h.front, fun hw => hway ▸ h.whole hw⟩

theorem Carried.payload (h : Carried e r p unread) {len : UInt32} {rest : List UInt8}
    (hsome : r.header = some len) (hsize : ∀ e ∈ unread, size e < 2 ^ 32)
    (hread : readPayload Envelope.codec len p.arrived = .ok (some (envelope, rest))) :
    ∃ unread', unread = envelope :: unread' ∧
    ∀ r' : Endpoint, r'.received = r.received ++ [envelope] → r'.header = none →
      Carried e r' { p with arrived := rest } unread' := by
  obtain ⟨-, hlen, envelope', hdecode, heq⟩ := readPayload_eq_ok_iff.mp hread
  obtain ⟨rfl, rfl⟩ := Prod.mk.inj (Option.some.inj heq)
  have hfront := h.front
  unfold onTheWay at hfront
  rw [hsome, headerBytes, List.append_assoc] at hfront
  obtain ⟨first, unread', rfl, hannounced, hbytes⟩ := payload_of_prefix hfront hsize
  -- the bytes that were read are the whole encoding
  have hencoded : first.1.encodeToVec = p.arrived.take len.toNat := by
    obtain ⟨tail, htail⟩ := hbytes
    have htake := congrArg (List.take len.toNat) htail
    rw [List.append_assoc, List.append_assoc, List.take_append_of_le_length hlen,
      List.take_append_of_le_length (by rw [hannounced]; exact Nat.le_refl _)] at htake
    rw [htake, hannounced]
    exact (List.take_length).symm
  have hfirst : envelope = first := by
    rw [← hencoded] at hdecode
    exact Option.some.inj (hdecode.symm.trans (Envelope.codec.decode_encode first))
  subst hfirst
  refine ⟨unread', rfl, fun r' hreceived hheader => ?_⟩
  have hsplit : onTheWay r p ++ unwritten e = frame envelope ++
      (onTheWay r' { p with arrived := p.arrived.drop len.toNat } ++ unwritten e) := by
    have hputs : putU32 len = putU32 (announcedSize envelope) := by
      have hsize := hsize _ List.mem_cons_self
      exact congrArg putU32
        (UInt32.toNat_inj.mp (hannounced.trans (toNat_announcedSize hsize).symm))
    unfold onTheWay
    rw [hsome, hheader, headerBytes, headerBytes, frame_eq, hencoded, hputs]
    simp only [List.append_assoc, List.nil_append]
    rw [← List.append_assoc (List.take _ _), List.take_append_drop]
  refine ⟨?_, ?_, fun hw => ?_⟩
  · rw [h.sent, hreceived, List.append_assoc]
    rfl
  · have hfront := h.front
    rw [hsplit, frames_cons] at hfront
    exact (List.prefix_append_right_inj _).mp hfront
  · have hwhole := h.whole hw
    rw [hsplit, frames_cons] at hwhole
    exact List.append_cancel_left hwhole

end Carried

/-! ## Steps -/

inductive PhaseMove : Phase → Phase → Prop where
  | stay (phase : Phase) : PhaseMove phase phase
  | finish (phase : Phase) : PhaseMove phase .ended
  | flushed : PhaseMove .sendHandshake .receiveHandshake
  | replied (remoteNodeId : NodeId) (remoteGcReplica : Bool) :
    PhaseMove (.replyHandshake remoteNodeId remoteGcReplica) (.running remoteNodeId remoteGcReplica)

/-- A step of one side that reads nothing and hands nothing over. -/
structure LocalMove (e e' : Endpoint) : Prop extends SendKeeps e e' where
  identity : e'.identity = e.identity
  received : e'.received = e.received
  header : e'.header = e.header
  forwarded : e'.forwarded = e.forwarded
  phase : PhaseMove e.phase e'.phase
  rx : e'.rx <:+ e.rx
  handle : e'.handle = true → e.handle = true ∨ ∃ id gc, e'.phase = .running id gc
  writes : e'.started = false → e'.writing = e.writing

/-- What a step does to a connection, if it hands nothing over. -/
inductive Move (c : Connection) : Connection → List Event → Prop where
  | local (s : Side) {e : Endpoint} (h : LocalMove (c.ends s) e) : Move c (c.setEnd s e) []
  | registered (s : Side) {e : Endpoint} {remoteNodeId : NodeId} {remoteGcReplica : Bool}
      (h : LocalMove (c.ends s) e)
      (hphase : e.phase = .running remoteNodeId remoteGcReplica) :
      Move c (c.setEnd s e) [.registered s remoteNodeId remoteGcReplica]
  | write (s : Side) (k : Nat) :
      Move c ((c.setEnd s { c.ends s with outgoing := (c.ends s).outgoing.drop k }).setPipe s
        { c.pipes s with flight := (c.pipes s).flight ++ (c.ends s).outgoing.take k }) []
  | arrive (s : Side) (k : Nat) :
      Move c (c.setPipe s
        ⟨(c.pipes s).flight.drop k, (c.pipes s).arrived ++ (c.pipes s).flight.take k⟩) []
  | header (s : Side) {lenBuf rest : List UInt8} (hnone : (c.ends s).header = none)
      (hread : readExact 4 (c.pipes s.other).arrived = some (lenBuf, rest)) :
      Move c ((c.setEnd s { c.ends s with header := some (fromBeBytes lenBuf) }).setPipe s.other
        { c.pipes s.other with arrived := rest }) []
  | payload (s : Side) {len : UInt32} {envelope : ValidEnvelope} {rest : List UInt8}
      (hreads : (c.ends s).reads = true)
      (hsome : (c.ends s).header = some len)
      (hread : readPayload Envelope.codec len (c.pipes s.other).arrived =
        .ok (some (envelope, rest))) :
      Move c ((c.setEnd s ((c.ends s).receive s envelope).1).setPipe s.other
        { c.pipes s.other with arrived := rest })
        ((c.ends s).receive s envelope).2
  | reset : Move c { c with broken := true } []

/-- What is handed over fits into a frame, as far as the four bytes go. -/
def Label.Fits : Label → Prop
  | .offer _ envelope => size envelope < 2 ^ 32
  | _ => True

section moves

variable {e e' : Endpoint} {c c' : Connection} {evs : List Event} {l : Label}

theorem LocalMove.refl (e : Endpoint) : LocalMove e e :=
  ⟨⟨rfl, List.prefix_rfl, fun hw => ⟨hw, rfl⟩⟩, rfl, rfl, rfl, rfl, .stay _,
    List.suffix_rfl, Or.inl, fun _ => rfl⟩

theorem localMove_close (e : Endpoint) : LocalMove e e.close where
  sent := rfl
  front := List.nil_prefix
  whole h := nomatch h
  identity := rfl
  received := rfl
  header := rfl
  forwarded := rfl
  phase := .finish _
  rx := List.nil_suffix
  handle h := Or.inl h
  writes h := nomatch h

theorem localMove_flushed {s : Side} (h : e.flushed s = some (e', evs)) : LocalMove e e' ∧
    (evs = [] ∨ ∃ id gc, e'.phase = .running id gc ∧ evs = [.registered s id gc]) := by
  have hkeeps : ∀ phase handle, PhaseMove e.phase phase →
      (handle = true → e.handle = true ∨ ∃ id gc, phase = .running id gc) →
          LocalMove e { e with phase, handle } := by
    intro phase handle hphase hhandle
    exact ⟨⟨rfl, List.prefix_rfl, fun hw => ⟨hw, rfl⟩⟩, rfl, rfl, rfl, rfl,
      hphase, List.suffix_rfl, hhandle, fun _ => rfl⟩
  unfold Endpoint.flushed at h
  split at h
  · split at h
    · next hphase =>
      obtain ⟨rfl, rfl⟩ := Prod.mk.inj (Option.some.inj h)
      exact ⟨hkeeps _ _ (hphase ▸ .flushed) Or.inl, Or.inl rfl⟩
    · next id gc hphase =>
      obtain ⟨rfl, rfl⟩ := Prod.mk.inj (Option.some.inj h)
      exact ⟨hkeeps _ _ (hphase ▸ .replied id gc) fun _ => Or.inr ⟨id, gc, rfl⟩,
        Or.inr ⟨id, gc, rfl, rfl⟩⟩
    · cases h
  · cases h

theorem localMove_writerDone (h : e.writerDone = some e') : LocalMove e e' := by
  unfold Endpoint.writerDone at h
  split at h
  · next hdone =>
    obtain rfl := Option.some.inj h
    exact ⟨⟨rfl, List.prefix_rfl, fun hw => nomatch hw⟩, rfl, rfl, rfl, rfl,
      .stay _, List.suffix_rfl, Or.inl,
      fun hs => absurd (hs.symm.trans hdone.1) Bool.false_ne_true⟩
  · cases h

theorem localMove_writeError (h : e.writeError = some e') : LocalMove e e' := by
  unfold Endpoint.writeError at h
  split at h
  · cases h
  · split at h
    · next hstarted =>
      obtain rfl := Option.some.inj h
      exact ⟨⟨rfl, List.nil_prefix, fun hw => nomatch hw⟩, rfl, rfl, rfl, rfl,
        .stay _, List.nil_suffix, Or.inl,
        fun hs => absurd (hs.symm.trans hstarted) Bool.false_ne_true⟩
    · obtain rfl := Option.some.inj h
      exact localMove_close e

theorem localMove_abort (h : e.abort = some e') : LocalMove e e' := by
  unfold Endpoint.abort at h
  split at h
  · cases h
  · obtain rfl := Option.some.inj h
    exact ⟨⟨rfl, List.prefix_rfl, fun hw => ⟨hw, rfl⟩⟩, rfl, rfl, rfl, rfl,
      .finish _, List.suffix_rfl, Or.inl,
      fun hs => nomatch hs⟩
  · obtain rfl := Option.some.inj h
    exact localMove_close e

theorem move_of_read {s : Side} (h : c.read s = some (c', evs)) : Move c c' evs := by
  unfold Connection.read at h
  dsimp only at h
  split at h
  · cases h
  · next hreads =>
    rw [Bool.not_eq_true, Bool.not_eq_false] at hreads
    split at h
    · next hnone =>
      split at h
      · next hread =>
        obtain ⟨rfl, rfl⟩ := Prod.mk.inj (Option.some.inj h)
        exact .header s hnone hread
      · split at h
        · obtain ⟨rfl, rfl⟩ := Prod.mk.inj (Option.some.inj h)
          exact .local s (localMove_close _)
        · cases h
    · next hsome =>
      split at h
      · next hread =>
        obtain ⟨rfl, rfl⟩ := Prod.mk.inj (Option.some.inj h)
        exact .payload s hreads hsome hread
      · split at h
        · obtain ⟨rfl, rfl⟩ := Prod.mk.inj (Option.some.inj h)
          exact .local s (localMove_close _)
        · cases h
      · obtain ⟨rfl, rfl⟩ := Prod.mk.inj (Option.some.inj h)
        exact .local s (localMove_close _)
      · cases h

theorem move_of_advance (hl : ∀ s envelope, l ≠ .offer s envelope)
    (h : c.advance l = some (c', evs)) : Move c c' evs := by
  cases l with
  | write s k =>
    change (if _ then _ else _) = _ at h
    split at h
    · obtain ⟨rfl, rfl⟩ := Prod.mk.inj (Option.some.inj h)
      exact .write s k
    · cases h
  | arrive s k =>
    change (if _ then _ else _) = _ at h
    split at h
    · obtain ⟨rfl, rfl⟩ := Prod.mk.inj (Option.some.inj h)
      exact .arrive s k
    · cases h
  | flushed s =>
    obtain ⟨⟨e, evs'⟩, hflushed, heq⟩ := Option.map_eq_some_iff.mp h
    obtain ⟨rfl, rfl⟩ := Prod.mk.inj heq
    obtain ⟨hlocal, rfl | ⟨id, gc, hphase, rfl⟩⟩ := localMove_flushed hflushed
    · exact .local s hlocal
    · exact .registered s hlocal hphase
  | read s => exact move_of_read h
  | take s =>
    unfold Connection.advance at h
    dsimp only at h
    split at h
    · next envelope rest hrx =>
      split at h
      · next hguard =>
        obtain ⟨rfl, rfl⟩ := Prod.mk.inj (Option.some.inj h)
        have heq : unwritten { c.ends s with rx := rest, outgoing := frame envelope } =
            unwritten (c.ends s) := by
          unfold unwritten
          rw [hrx, hguard.2, frames_cons]
          rfl
        refine .local s ⟨⟨rfl, heq ▸ List.prefix_rfl, fun hw => ⟨hw, heq⟩⟩, rfl,
          rfl, rfl, rfl, .stay _, ?_, Or.inl,
          fun _ => rfl⟩
        rw [hrx]
        exact List.suffix_cons _ _
      · cases h
    · cases h
  | offer s envelope => exact absurd rfl (hl s envelope)
  | dropHandle s =>
    change (if _ then _ else _) = _ at h
    split at h
    · obtain ⟨rfl, rfl⟩ := Prod.mk.inj (Option.some.inj h)
      have hkeeps : SendKeeps (c.ends s) { c.ends s with handle := false } :=
        ⟨rfl, List.prefix_rfl, fun hw => ⟨hw, rfl⟩⟩
      exact .local s ⟨hkeeps, rfl, rfl, rfl, rfl, .stay _, List.suffix_rfl, nofun, fun _ => rfl⟩
    · cases h
  | writerDone s =>
    obtain ⟨e, hdone, heq⟩ := Option.map_eq_some_iff.mp h
    obtain ⟨rfl, rfl⟩ := Prod.mk.inj heq
    exact .local s (localMove_writerDone hdone)
  | abort s =>
    obtain ⟨e, habort, heq⟩ := Option.map_eq_some_iff.mp h
    obtain ⟨rfl, rfl⟩ := Prod.mk.inj heq
    exact .local s (localMove_abort habort)
  | reset =>
    change (if _ then _ else _) = _ at h
    split at h
    · cases h
    · obtain ⟨rfl, rfl⟩ := Prod.mk.inj (Option.some.inj h)
      exact .reset
  | readError s =>
    change (if _ then _ else _) = _ at h
    split at h
    · obtain ⟨rfl, rfl⟩ := Prod.mk.inj (Option.some.inj h)
      exact .local s (localMove_close _)
    · cases h
  | writeError s =>
    change (if _ then _ else _) = _ at h
    split at h
    · obtain ⟨e, herror, heq⟩ := Option.map_eq_some_iff.mp h
      obtain ⟨rfl, rfl⟩ := Prod.mk.inj heq
      exact .local s (localMove_writeError herror)
    · cases h

end moves

/-! ## The invariant -/

/-- What holds of one side. -/
structure EndInv (s : Side) (e : Endpoint) : Prop where
  greeted : (∃ accepted, e.sent = e.identity.handshake :: accepted) ∨
    e.sent = [] ∧ s = .acceptor ∧ (e.phase = .receiveHandshake ∨ e.phase = .ended) ∧
      e.handle = false
  silent : s = .acceptor → e.phase = .receiveHandshake → e.sent = []
  first : e.phase = .sendHandshake → s = .initiator
  early : e.phase = .sendHandshake ∨ e.phase = .receiveHandshake → e.received = []
  known : ∀ id gc, e.phase = .replyHandshake id gc ∨ e.phase = .running id gc →
    ∃ h rest, e.received = h :: rest ∧ Endpoint.receiveHandshake h = some (id, gc)
  forwarded : e.forwarded = (e.received.drop 1).filter fun x => x.1.payload.isSome
  quiet : e.started = false → e.rx = [] ∧ e.handle = false ∧ e.writing = true
  sizes : ∀ x ∈ e.sent, size x < 2 ^ 32

structure Inv (c : Connection) : Prop where
  ends : ∀ s, EndInv s (c.ends s)
  pipes : ∀ s, ∃ unread, Carried (c.ends s) (c.ends s.other) (c.pipes s) unread

theorem size_handshake (i : Identity) : size i.handshake < 2 ^ 32 := by
  have hshort := i.short
  have hmax : MAX_FRAME_LEN.toNat = 16777216 := by decide
  show (handshakeEnvelope i.nodeId i.nodeName i.gcReplica).encodeToVec.length < 2 ^ 32
  omega

section invariant

variable {s : Side} {e e' : Endpoint} {c c' : Connection} {evs : List Event}
  {envelope : ValidEnvelope}

theorem started_of_phaseMove (h : PhaseMove e.phase e'.phase) (hs : e'.started = false) :
    e.started = false := by
  unfold Endpoint.started at *
  generalize e.phase = phase at *
  generalize e'.phase = phase' at *
  cases h with
  | stay => exact hs
  | finish => cases hs
  | flushed => rfl
  | replied => rfl

theorem EndInv.local (h : EndInv s e) (hm : LocalMove e e') : EndInv s e' := by
  have hphase := hm.phase
  refine ⟨?_, ?_, ?_, ?_, ?_, ?_, ?_, ?_⟩
  · rw [hm.sent, hm.identity]
    refine h.greeted.imp_right fun ⟨hsent, hs, hbefore, hhandle⟩ => ⟨hsent, hs, ?_⟩
    have hafter : e'.phase = .receiveHandshake ∨ e'.phase = .ended := by
      generalize e'.phase = phase' at hphase
      generalize e.phase = phase at hphase hbefore
      cases hphase with
      | stay => exact hbefore
      | finish => exact Or.inr rfl
      | flushed | replied => simp at hbefore
    refine ⟨hafter, Bool.not_eq_true _ ▸ fun hkept => ?_⟩
    rcases hm.handle hkept with hkept | ⟨id, gc, hrunning⟩
    · rw [hhandle] at hkept
      cases hkept
    · rw [hrunning] at hafter
      simp at hafter
  · intro hs hafter
    rw [hm.sent]
    rw [hafter] at hphase
    generalize hbefore : e.phase = phase at hphase
    cases hphase with
    | stay => exact h.silent hs hbefore
    | flushed => exact absurd ((h.first hbefore).symm.trans hs) (by decide)
  · intro hafter
    rw [hafter] at hphase
    generalize hbefore : e.phase = phase at hphase
    cases hphase with
    | stay => exact h.first hbefore
  · intro hafter
    rw [hm.received]
    refine h.early ?_
    generalize e'.phase = phase' at hphase hafter
    generalize e.phase = phase at hphase
    cases hphase with
    | stay => exact hafter
    | flushed => exact Or.inl rfl
    | finish | replied => simp at hafter
  · intro id gc hafter
    rw [hm.received]
    refine h.known id gc ?_
    generalize e'.phase = phase' at hphase hafter
    generalize e.phase = phase at hphase
    cases hphase with
    | stay => exact hafter
    | replied => simpa using hafter
    | flushed | finish => simp at hafter
  · rw [hm.forwarded, hm.received]
    exact h.forwarded
  · intro hs
    obtain ⟨hrx, hhandle, hwriting⟩ := h.quiet (started_of_phaseMove hphase hs)
    refine ⟨List.suffix_nil.mp (hrx ▸ hm.rx), ?_, (hm.writes hs).trans hwriting⟩
    rw [← Bool.not_eq_true]
    intro hafter
    rcases hm.handle hafter with hbefore | ⟨id, gc, hrunning⟩
    · rw [hhandle] at hbefore
      cases hbefore
    · unfold Endpoint.started at hs
      rw [hrunning] at hs
      cases hs
  · rw [hm.sent]
    exact h.sizes

theorem receive_received (e : Endpoint) (s : Side) (envelope : ValidEnvelope) :
    (e.receive s envelope).1.received = e.received ++ [envelope] ∧
    (e.receive s envelope).1.header = none := by
  unfold Endpoint.receive
  dsimp only
  split
  · split
    · exact ⟨rfl, rfl⟩
    · split
      · exact ⟨rfl, rfl⟩
      · exact ⟨rfl, rfl⟩
  · unfold Endpoint.dispatch
    split
    · exact ⟨rfl, rfl⟩
    · exact ⟨rfl, rfl⟩

theorem receive_sends (h : EndInv s e) (hsilent : s = .acceptor →
    e.phase = .receiveHandshake → unwritten e = [])
    (envelope : ValidEnvelope) : SendKeeps e (e.receive s envelope).1 ∨
      s = .acceptor ∧ SendGrows e (e.receive s envelope).1 e.identity.handshake := by
  unfold Endpoint.receive
  dsimp only
  split
  · next hphase =>
    split
    · exact Or.inl ⟨rfl, List.nil_prefix, fun hw => nomatch hw⟩
    · split
      · exact Or.inl ⟨rfl, List.prefix_rfl, fun hw => ⟨hw, rfl⟩⟩
      · have hstarted : e.started = false := by
          unfold Endpoint.started
          rw [hphase]
        obtain ⟨hrx, -, hwriting⟩ := h.quiet hstarted
        refine Or.inr ⟨rfl, rfl, hwriting, ?_⟩
        rw [hsilent rfl hphase, List.nil_append]
        show frame e.identity.handshake ++ frames e.rx = _
        rw [hrx]
        exact List.append_nil _
  · unfold Endpoint.dispatch
    split
    · exact Or.inl ⟨rfl, List.prefix_rfl, fun hw => ⟨hw, rfl⟩⟩
    · exact Or.inl ⟨rfl, List.prefix_rfl, fun hw => ⟨hw, rfl⟩⟩

theorem EndInv.receive (h : EndInv s e) (hreads : e.reads = true) (envelope : ValidEnvelope) :
    EndInv s (e.receive s envelope).1 := by
  unfold Endpoint.receive
  dsimp only
  split
  · next hphase =>
    have hreceived := h.early (Or.inr hphase)
    have hforwarded : e.forwarded = ((e.received ++ [envelope]).drop 1).filter fun x =>
        x.1.payload.isSome := by
      rw [h.forwarded, hreceived]
      rfl
    split
    · refine ⟨?_, nofun, nofun, nofun, nofun, hforwarded, nofun, h.sizes⟩
      exact h.greeted.imp_right fun ⟨hsent, hs, _, hhandle⟩ => ⟨hsent, hs, Or.inr rfl, hhandle⟩
    · next id gc hknown =>
      have hfirst : ∃ x rest, e.received ++ [envelope] = x :: rest ∧
          Endpoint.receiveHandshake x = some (id, gc) :=
        ⟨envelope, [], by rw [hreceived, List.nil_append], hknown⟩
      split
      · refine ⟨Or.inl ?_, nofun, nofun, nofun, ?_, hforwarded, nofun, h.sizes⟩
        · exact h.greeted.resolve_right fun ⟨_, hs, _⟩ => nomatch hs
        · rintro id' gc' (hp | hp)
          · cases hp
          · obtain ⟨rfl, rfl⟩ := Phase.running.inj hp
            exact hfirst
      · have hsent := h.silent rfl hphase
        have hstarted : e.started = false := by
          unfold Endpoint.started
          rw [hphase]
        refine ⟨Or.inl ⟨[], ?_⟩, nofun, nofun, nofun, ?_, hforwarded, fun _ => h.quiet hstarted, ?_⟩
        · show e.sent ++ [e.identity.handshake] = _
          rw [hsent]
          rfl
        · rintro id' gc' (hp | hp)
          · obtain ⟨rfl, rfl⟩ := Phase.replyHandshake.inj hp
            exact hfirst
          · cases hp
        · refine List.forall_mem_append.mpr
            ⟨h.sizes, List.forall_mem_singleton.mpr (size_handshake e.identity)⟩
  · next hphase =>
    -- the reader's loop
    obtain ⟨id, gc, hrunning⟩ : ∃ id gc, e.phase = .running id gc := by
      unfold Endpoint.reads at hreads
      split at hreads
      · next hp => exact absurd hp hphase
      · next id gc hp => exact ⟨id, gc, hp⟩
      · cases hreads
    obtain ⟨x, rest, hreceived, hx⟩ := h.known id gc (Or.inr hrunning)
    have hstarted : e.started = true := by
      unfold Endpoint.started
      rw [hrunning]
    have hall : ∀ forwarded, forwarded = ((e.received ++ [envelope]).drop 1).filter
        (fun x => x.1.payload.isSome) →
        EndInv s { e with header := none, received := e.received ++ [envelope], forwarded } := by
      intro forwarded hf
      refine ⟨h.greeted, h.silent, h.first, fun hp => ?_, fun id' gc' hp => ?_,
        hf, fun hs => ?_, h.sizes⟩
      · rw [hrunning] at hp
        simp at hp
      · obtain ⟨y, rest', hy, hk⟩ := h.known id' gc' hp
        exact ⟨y, rest' ++ [envelope], by rw [hy]; rfl, hk⟩
      · exact absurd (hstarted.symm.trans hs) (by decide)
    have hforwarded : ((e.received ++ [envelope]).drop 1).filter (fun x => x.1.payload.isSome) =
        e.forwarded ++ [envelope].filter fun x => x.1.payload.isSome := by
      rw [h.forwarded, hreceived, List.cons_append, List.drop_one, List.tail_cons,
        List.drop_one, List.tail_cons,
        List.filter_append]
    unfold Endpoint.dispatch
    split
    · next hp =>
      refine hall _ ?_
      rw [hforwarded]
      simp [hp]
    · next hp =>
      refine hall _ ?_
      rw [hforwarded]
      simp [hp]

theorem trySend_eq_some (h : e.trySend envelope = some e') : e.handle = true ∧ e.writing = true ∧
    e' = { e with rx := e.rx ++ [envelope], sent := e.sent ++ [envelope] } := by
  unfold Endpoint.trySend at h
  split at h
  · next hguard => exact ⟨hguard.1, hguard.2.1, (Option.some.inj h).symm⟩
  · cases h

theorem EndInv.trySend (h : EndInv s e) (hsize : size envelope < 2 ^ 32)
    (hsent : e.trySend envelope = some e') :
    EndInv s e' := by
  obtain ⟨hhandle, -, rfl⟩ := trySend_eq_some hsent
  have hstarted : e.started = true := by
    rw [← Bool.not_eq_false]
    intro hs
    rw [(h.quiet hs).2.1] at hhandle
    cases hhandle
  obtain ⟨accepted, haccepted⟩ := h.greeted.resolve_right fun ⟨_, _, _, hnone⟩ => by
    rw [hhandle] at hnone
    cases hnone
  refine ⟨Or.inl ⟨accepted ++ [envelope], ?_⟩, fun _ hp => ?_, h.first, h.early,
    h.known, h.forwarded, fun hs => ?_, ?_⟩
  · show e.sent ++ [envelope] = _
    rw [haccepted]
    rfl
  · unfold Endpoint.started at hstarted
    change e.phase = _ at hp
    rw [hp] at hstarted
    cases hstarted
  · exact absurd (hstarted.symm.trans hs) (by decide)
  · exact List.forall_mem_append.mpr ⟨h.sizes, List.forall_mem_singleton.mpr hsize⟩

theorem Inv.setEnd (h : Inv c) (hend : EndInv s e) (hkeeps : SendKeeps (c.ends s) e)
    (hreceived : e.received = (c.ends s).received) (hheader : e.header = (c.ends s).header) :
    Inv (c.setEnd s e) := by
  refine ⟨fun t => ?_, fun t => ?_⟩
  · rcases s.eq_or_eq_other t with rfl | rfl
    · rw [Connection.setEnd_self]
      exact hend
    · rw [Connection.setEnd_other]
      exact h.ends _
  · obtain ⟨unread, hcarried⟩ := h.pipes t
    refine ⟨unread, ?_⟩
    rcases s.eq_or_eq_other t with rfl | rfl
    · rw [Connection.setEnd_self, Connection.setEnd_other]
      exact hcarried.keeps hkeeps
    · rw [Connection.setEnd_other, Side.other_other, Connection.setEnd_self]
      rw [Side.other_other] at hcarried
      exact hcarried.receiver hreceived hheader

theorem Inv.silent (h : Inv c) (hs : s = .acceptor)
    (hphase : (c.ends s).phase = .receiveHandshake) :
    unwritten (c.ends s) = [] := by
  obtain ⟨unread, hcarried⟩ := h.pipes s
  have hsent := hcarried.sent
  rw [(h.ends s).silent hs hphase] at hsent
  obtain ⟨-, rfl⟩ := List.append_eq_nil_iff.mp hsent.symm
  exact (List.append_eq_nil_iff.mp (List.prefix_nil.mp hcarried.front)).2

theorem Inv.local (h : Inv c) (hm : LocalMove (c.ends s) e) : Inv (c.setEnd s e) :=
  h.setEnd ((h.ends s).local hm) hm.toSendKeeps hm.received hm.header

theorem Inv.move (h : Inv c) (hm : Move c c' evs) : Inv c' := by
  cases hm with
  | «local» s hlocal => exact h.local hlocal
  | registered s hlocal _ => exact h.local hlocal
  | write s k =>
    refine ⟨fun t => ?_, fun t => ?_⟩
    · rcases s.eq_or_eq_other t with rfl | rfl
      · rw [Connection.setPipe_ends, Connection.setEnd_self]
        exact { h.ends t with }
      · rw [Connection.setPipe_ends, Connection.setEnd_other]
        exact h.ends _
    · obtain ⟨unread, hcarried⟩ := h.pipes t
      refine ⟨unread, ?_⟩
      rcases s.eq_or_eq_other t with rfl | rfl
      · rw [Connection.setPipe_ends, Connection.setEnd_self, Connection.setEnd_other,
          Connection.setPipe_self]
        exact hcarried.write k
      · rw [Connection.setPipe_ends, Connection.setEnd_other, Side.other_other,
          Connection.setEnd_self,
          Connection.setPipe_other']
        rw [Side.other_other] at hcarried
        exact hcarried.receiver rfl rfl
  | arrive s k =>
    refine ⟨h.ends, fun t => ?_⟩
    obtain ⟨unread, hcarried⟩ := h.pipes t
    refine ⟨unread, ?_⟩
    rcases s.eq_or_eq_other t with rfl | rfl
    · rw [Connection.setPipe_ends, Connection.setPipe_self]
      exact hcarried.arrive k
    · rw [Connection.setPipe_ends, Connection.setPipe_other']
      exact hcarried
  | header s hnone hread =>
    refine ⟨fun t => ?_, fun t => ?_⟩
    · rcases s.eq_or_eq_other t with rfl | rfl
      · rw [Connection.setPipe_ends, Connection.setEnd_self]
        exact { h.ends t with }
      · rw [Connection.setPipe_ends, Connection.setEnd_other]
        exact h.ends _
    · obtain ⟨unread, hcarried⟩ := h.pipes t
      refine ⟨unread, ?_⟩
      rcases s.eq_or_eq_other t with rfl | rfl
      · rw [Connection.setPipe_ends, Connection.setEnd_self, Connection.setEnd_other,
          Connection.setPipe_other]
        exact hcarried.keeps ⟨rfl, List.prefix_rfl, fun hw => ⟨hw, rfl⟩⟩
      · rw [Connection.setPipe_ends, Connection.setEnd_other, Side.other_other,
          Connection.setEnd_self,
          Connection.setPipe_self]
        rw [Side.other_other] at hcarried
        exact hcarried.header hnone hread
  | payload s hreads hsome hread =>
    obtain ⟨hreceived, hheader⟩ := receive_received (c.ends s) s _
    refine ⟨fun t => ?_, fun t => ?_⟩
    · rcases s.eq_or_eq_other t with rfl | rfl
      · rw [Connection.setPipe_ends, Connection.setEnd_self]
        exact (h.ends t).receive hreads _
      · rw [Connection.setPipe_ends, Connection.setEnd_other]
        exact h.ends _
    · obtain ⟨unread, hcarried⟩ := h.pipes t
      rcases s.eq_or_eq_other t with rfl | rfl
      · rw [Connection.setPipe_ends, Connection.setEnd_self, Connection.setEnd_other,
          Connection.setPipe_other,
          Connection.setEnd_pipes]
        rcases receive_sends (h.ends t) h.silent _ with hkeeps | ⟨-, hgrows⟩
        · exact ⟨_, hcarried.keeps hkeeps⟩
        · exact ⟨_, hcarried.grows hgrows⟩
      · rw [Connection.setPipe_ends, Connection.setEnd_other, Side.other_other,
          Connection.setEnd_self,
          Connection.setPipe_self]
        rw [Side.other_other] at hcarried
        have hsizes : ∀ x ∈ unread, size x < 2 ^ 32 := by
          intro x hx
          refine (h.ends s.other).sizes x ?_
          rw [hcarried.sent]
          exact List.mem_append_right _ hx
        obtain ⟨unread', -, hafter⟩ := hcarried.payload hsome hsizes hread
        exact ⟨unread', hafter _ hreceived hheader⟩
  | reset => exact ⟨h.ends, h.pipes⟩

theorem Inv.offer (h : Inv c) (hsize : size envelope < 2 ^ 32)
    (hsent : (c.ends s).trySend envelope = some e) :
    Inv (c.setEnd s e) := by
  obtain ⟨-, hwriting, rfl⟩ := trySend_eq_some hsent
  refine ⟨fun t => ?_, fun t => ?_⟩
  · rcases s.eq_or_eq_other t with rfl | rfl
    · rw [Connection.setEnd_self]
      exact (h.ends t).trySend hsize hsent
    · rw [Connection.setEnd_other]
      exact h.ends _
  · obtain ⟨unread, hcarried⟩ := h.pipes t
    rcases s.eq_or_eq_other t with rfl | rfl
    · rw [Connection.setEnd_self, Connection.setEnd_other]
      refine ⟨_, hcarried.grows ⟨rfl, hwriting, ?_⟩⟩
      unfold unwritten
      rw [frames_append, frames_singleton, List.append_assoc]
    · rw [Connection.setEnd_other, Side.other_other, Connection.setEnd_self]
      rw [Side.other_other] at hcarried
      exact ⟨unread, hcarried.receiver rfl rfl⟩

theorem identity_setEnd (t : Side) (he : e.identity = (c.ends t).identity) (s : Side) :
    ((c.setEnd t e).ends s).identity = (c.ends s).identity := by
  rcases t.eq_or_eq_other s with rfl | rfl
  · rw [Connection.setEnd_self, he]
  · rw [Connection.setEnd_other]

theorem Move.identity (hm : Move c c' evs) (s : Side) :
    (c'.ends s).identity = (c.ends s).identity := by
  have hset : ∀ t e', e'.identity = (c.ends t).identity →
      ((c.setEnd t e').ends s).identity = (c.ends s).identity :=
    fun t e' he => identity_setEnd t he s
  cases hm with
  | «local» t h => exact hset t _ h.identity
  | registered t h _ => exact hset t _ h.identity
  | write t k => exact hset t _ rfl
  | header t _ _ => exact hset t _ rfl
  | payload t _ _ _ =>
    refine hset t _ ?_
    unfold Endpoint.receive Endpoint.dispatch
    dsimp only
    split
    · split
      · rfl
      · split <;> rfl
    · split <;> rfl
  | arrive | reset => rfl

theorem inv_opened (peer : Side → Identity) : Inv (.opened peer) := by
  refine ⟨fun s => ?_, fun s => ?_⟩
  · cases s with
    | initiator =>
      exact ⟨Or.inl ⟨[], rfl⟩, nofun, fun _ => rfl, fun _ => rfl, nofun, rfl,
        fun _ => ⟨rfl, rfl, rfl⟩,
        List.forall_mem_singleton.mpr (size_handshake _)⟩
    | acceptor =>
      refine ⟨Or.inr ⟨rfl, rfl, Or.inl rfl, rfl⟩, fun _ _ => rfl, nofun, fun _ => rfl, ?_, rfl,
        fun _ => ⟨rfl, rfl, rfl⟩, fun x hx => (List.not_mem_nil hx).elim⟩
      rintro id gc (hp | hp) <;> cases hp
  · cases s with
    | initiator =>
      have heq : unwritten (Connection.endpoint (peer .initiator) .initiator) =
          frames [(peer .initiator).handshake] := by
        rw [frames_singleton]
        exact List.append_nil _
      exact ⟨[(peer .initiator).handshake], rfl, heq ▸ List.prefix_rfl, fun _ => heq⟩
    | acceptor => exact ⟨[], rfl, List.prefix_rfl, fun _ => rfl⟩

theorem advance_of_step {l : Label} (h : c.step l = some c') :
    ∃ evs, c.advance l = some (c', evs) := by
  obtain ⟨⟨c'', evs⟩, hadvance, rfl⟩ := Option.map_eq_some_iff.mp h
  exact ⟨evs, hadvance⟩

theorem Inv.advance {l : Label} (h : Inv c) (hl : l.Fits)
    (hadvance : c.advance l = some (c', evs)) :
    Inv c' ∧ ∀ s, (c'.ends s).identity = (c.ends s).identity := by
  by_cases hoffer : ∃ s envelope, l = .offer s envelope
  · obtain ⟨s, envelope, rfl⟩ := hoffer
    obtain ⟨e, hsent, heq⟩ := Option.map_eq_some_iff.mp hadvance
    obtain ⟨rfl, rfl⟩ := Prod.mk.inj heq
    refine ⟨h.offer hl hsent, identity_setEnd s ?_⟩
    obtain ⟨-, -, rfl⟩ := trySend_eq_some hsent
    rfl
  · have hm := move_of_advance (fun s envelope heq => hoffer ⟨s, envelope, heq⟩) hadvance
    exact ⟨h.move hm, hm.identity⟩

theorem inv_of_reachable {peer : Side → Identity}
    (h : Reachable Connection.step (fun _ l => l.Fits) (.opened peer) c) :
    Inv c ∧ ∀ s, (c.ends s).identity = peer s := by
  refine h.invariant (P := fun c => Inv c ∧ ∀ s, (c.ends s).identity = peer s)
    ⟨inv_opened peer, fun s => by cases s <;> rfl⟩ fun c l c' _ ⟨hc, hid⟩ hl hstep => ?_
  obtain ⟨evs, hadvance⟩ := advance_of_step hstep
  obtain ⟨hc', hid'⟩ := hc.advance hl hadvance
  exact ⟨hc', fun s => (hid' s).trans (hid s)⟩

theorem receiveHandshake_handshake (i : Identity) :
    Endpoint.receiveHandshake i.handshake = some (i.nodeId, i.gcReplica) := rfl

theorem Inv.received_prefix (h : Inv c) (s : Side) :
    (c.ends s).received <+: (c.ends s.other).sent := by
  obtain ⟨unread, hcarried⟩ := h.pipes s.other
  rw [hcarried.sent, Side.other_other]
  exact List.prefix_append _ _

theorem Inv.head_received (h : Inv c) {rest : List ValidEnvelope}
    (hreceived : (c.ends s).received = envelope :: rest) :
    envelope = (c.ends s.other).identity.handshake := by
  have hprefix := h.received_prefix s
  rw [hreceived] at hprefix
  rcases (h.ends s.other).greeted with ⟨accepted, hsent⟩ | ⟨hsent, -⟩
  · rw [hsent] at hprefix
    exact (List.cons_prefix_cons.mp hprefix).1
  · rw [hsent] at hprefix
    exact absurd (List.prefix_nil.mp hprefix) (List.cons_ne_nil _ _)

theorem Inv.remote (h : Inv c) {id : NodeId} {gc : Bool}
    (hphase : (c.ends s).phase = .replyHandshake id gc ∨ (c.ends s).phase = .running id gc) :
    id = (c.ends s.other).identity.nodeId ∧ gc = (c.ends s.other).identity.gcReplica := by
  obtain ⟨x, rest, hreceived, hx⟩ := (h.ends s).known id gc hphase
  rw [h.head_received hreceived, receiveHandshake_handshake] at hx
  obtain ⟨rfl, rfl⟩ := Prod.mk.inj (Option.some.inj hx)
  exact ⟨rfl, rfl⟩

/-! ## What is pending -/

/-- What was handed over on side `s` and has not been read on the other. -/
def Connection.pending (c : Connection) (s : Side) : List ValidEnvelope :=
  (c.ends s).accepted.drop ((c.ends s.other).received.length - 1)

theorem Inv.accepted_length (h : Inv c) (s : Side) :
    (c.ends s.other).received.length - 1 ≤ (c.ends s).accepted.length := by
  have hle := (h.received_prefix s.other).length_le
  rw [Side.other_other] at hle
  unfold Endpoint.accepted
  rw [List.length_drop]
  omega

theorem pending_congr (haccepted : ∀ t, (c'.ends t).accepted = (c.ends t).accepted)
    (hreceived : ∀ t, (c'.ends t).received.length - 1 = (c.ends t).received.length - 1) (t : Side) :
    c'.pending t = c.pending t := by
  unfold Connection.pending
  rw [haccepted, hreceived]

theorem pending_setEnd (hsent : e.sent = (c.ends s).sent)
    (hreceived : e.received = (c.ends s).received) (t : Side) :
    (c.setEnd s e).pending t = c.pending t := by
  refine pending_congr (fun u => ?_) (fun u => ?_) t
  · unfold Endpoint.accepted
    rcases s.eq_or_eq_other u with rfl | rfl
    · rw [Connection.setEnd_self, hsent]
    · rw [Connection.setEnd_other]
  · rcases s.eq_or_eq_other u with rfl | rfl
    · rw [Connection.setEnd_self, hreceived]
    · rw [Connection.setEnd_other]

theorem pending_offer (h : Inv c) (hsent : (c.ends s).trySend envelope = some e) :
    (c.setEnd s e).pending s = c.pending s ++ [envelope] ∧
    (c.setEnd s e).pending s.other = c.pending s.other := by
  obtain ⟨hhandle, -, rfl⟩ := trySend_eq_some hsent
  obtain ⟨accepted, haccepted⟩ := (h.ends s).greeted.resolve_right fun ⟨_, _, _, hnone⟩ => by
    rw [hhandle] at hnone
    cases hnone
  have hgrow : ((c.ends s).sent ++ [envelope]).drop 1 = (c.ends s).accepted ++ [envelope] := by
    unfold Endpoint.accepted
    rw [haccepted]
    rfl
  refine ⟨?_, ?_⟩
  · unfold Connection.pending
    rw [Connection.setEnd_self, Connection.setEnd_other]
    show ((_ ++ [envelope]).drop 1).drop _ = _
    rw [hgrow, List.drop_append_of_le_length (h.accepted_length s)]
  · unfold Connection.pending
    rw [Connection.setEnd_other, Side.other_other, Connection.setEnd_self]

/-- A step forwards nothing and leaves what is pending as it is, or it forwards the first pending
envelope of one direction, unless that is empty. -/
theorem Move.pending (h : Inv c) (hm : Move c c' evs) :
    ((evs = [] ∨ ∃ s id gc, evs = [.registered s id gc]) ∧ ∀ t, c'.pending t = c.pending t) ∨
      ∃ s envelope, c.pending s.other = envelope :: c'.pending s.other ∧
      c'.pending s = c.pending s ∧
        evs = if envelope.1.payload.isSome then [.forwarded s envelope] else [] := by
  cases hm with
  | «local» s hl => exact Or.inl ⟨Or.inl rfl, pending_setEnd hl.sent hl.received⟩
  | registered s hl _ => exact Or.inl ⟨Or.inr ⟨_, _, _, rfl⟩, pending_setEnd hl.sent hl.received⟩
  | write s k =>
    refine Or.inl ⟨Or.inl rfl, fun t => ?_⟩
    exact pending_setEnd (c := c)
      (e := { c.ends s with outgoing := (c.ends s).outgoing.drop k }) rfl rfl t
  | @header s lenBuf rest _ _ =>
    refine Or.inl ⟨Or.inl rfl, fun t => ?_⟩
    exact pending_setEnd (c := c)
      (e := { c.ends s with header := some (fromBeBytes lenBuf) }) rfl rfl t
  | arrive | reset => exact Or.inl ⟨Or.inl rfl, fun t => rfl⟩
  | @payload s len envelope rest hreads hsome hread =>
    obtain ⟨hreceived, -⟩ := receive_received (c.ends s) s envelope
    obtain ⟨unread, hcarried⟩ := h.pipes s.other
    rw [Side.other_other] at hcarried
    obtain ⟨unread', rfl, -⟩ := hcarried.payload hsome (fun x hx => (h.ends s.other).sizes x (by
      rw [hcarried.sent]
      exact List.mem_append_right _ hx)) hread
    by_cases hphase : (c.ends s).phase = .receiveHandshake
    · -- the handshake was not handed over
      left
      have hnone := (h.ends s).early (Or.inr hphase)
      have hall : (((c.ends s).receive s envelope).2 = [] ∨
          ∃ t id gc, ((c.ends s).receive s envelope).2 = [.registered t id gc]) ∧
          ((c.ends s).receive s envelope).1.accepted = (c.ends s).accepted := by
        unfold Endpoint.receive
        dsimp only
        rw [hphase]
        dsimp only
        split
        · exact ⟨Or.inl rfl, rfl⟩
        · split
          · exact ⟨Or.inr ⟨_, _, _, rfl⟩, rfl⟩
          · refine ⟨Or.inl rfl, ?_⟩
            unfold Endpoint.accepted Endpoint.writeHandshake
            dsimp only
            rw [(h.ends _).silent rfl hphase]
            rfl
      refine ⟨hall.1, pending_congr (fun u => ?_) fun u => ?_⟩
      · rw [Connection.setPipe_ends]
        rcases s.eq_or_eq_other u with rfl | rfl
        · rw [Connection.setEnd_self, hall.2]
        · rw [Connection.setEnd_other]
      · rw [Connection.setPipe_ends]
        rcases s.eq_or_eq_other u with rfl | rfl
        · rw [Connection.setEnd_self, hreceived, hnone]
          rfl
        · rw [Connection.setEnd_other]
    · right
      have hrunning : ∃ id gc, (c.ends s).phase = .running id gc := by
        unfold Endpoint.reads at hreads
        split at hreads
        · next hp => exact absurd hp hphase
        · next id gc hp => exact ⟨id, gc, hp⟩
        · cases hreads
      obtain ⟨id, gc, hrunning⟩ := hrunning
      obtain ⟨first, before, hbefore, -⟩ := (h.ends s).known id gc (Or.inr hrunning)
      have hdispatch : ((c.ends s).receive s envelope).1.accepted = (c.ends s).accepted ∧
          ((c.ends s).receive s envelope).2 = if envelope.1.payload.isSome
              then [.forwarded s envelope] else [] := by
        unfold Endpoint.receive
        dsimp only
        rw [hrunning]
        unfold Endpoint.dispatch
        dsimp only
        split
        · next hp =>
          rw [hp]
          exact ⟨rfl, rfl⟩
        · next hp =>
          rw [hp]
          exact ⟨rfl, rfl⟩
      refine ⟨s, envelope, ?_, ?_, hdispatch.2⟩
      · unfold Connection.pending
        rw [Connection.setPipe_ends, Connection.setEnd_other, Side.other_other,
          Connection.setEnd_self, hreceived]
        unfold Endpoint.accepted
        rw [hcarried.sent, hbefore, List.drop_drop, List.drop_drop, List.length_append,
          List.length_cons,
          List.length_singleton, List.drop_append_of_le_length (by rw [List.length_cons]; omega),
          show 1 + (before.length + 1 - 1) =
            (first :: before).length by rw [List.length_cons]; omega, List.drop_length,
          show 1 + (before.length + 1 + 1 - 1) =
            (first :: before).length + 1 by rw [List.length_cons]; omega,
          List.drop_append]
        simp
      · unfold Connection.pending
        rw [Connection.setPipe_ends, Connection.setEnd_self, Connection.setEnd_other, hdispatch.1]

theorem registered_of_receive {t : Side} {id : NodeId} {gc : Bool}
    (h : .registered t id gc ∈ (e.receive s envelope).2) :
    t = s ∧ (e.receive s envelope).1.phase = .running id gc := by
  unfold Endpoint.receive at h ⊢
  dsimp only at h ⊢
  split at h
  · split at h
    · exact (List.not_mem_nil h).elim
    · split at h
      · obtain ⟨rfl, rfl, rfl⟩ := Event.registered.inj (List.mem_singleton.mp h)
        exact ⟨rfl, rfl⟩
      · exact (List.not_mem_nil h).elim
  · unfold Endpoint.dispatch at h
    split at h
    · simp at h
    · exact (List.not_mem_nil h).elim

theorem Move.registered_phase {id : NodeId} {gc : Bool} (hm : Move c c' evs)
    (h : .registered s id gc ∈ evs) :
    (c'.ends s).phase = .running id gc := by
  cases hm with
  | registered t hl hphase =>
    obtain ⟨rfl, rfl, rfl⟩ := Event.registered.inj (List.mem_singleton.mp h)
    rw [Connection.setEnd_self]
    exact hphase
  | payload t hreads hsome hread =>
    obtain ⟨rfl, hphase⟩ := registered_of_receive h
    rw [Connection.setPipe_ends, Connection.setEnd_self]
    exact hphase
  | «local» | write | arrive | header | reset => exact (List.not_mem_nil h).elim

end invariant

/-- **A connection keeps the order**: whatever happens to it, the peer that a side has in its
registry is the one at the other end, and what its application was sent is the beginning of what the
other was given to send, without the empty envelopes. -/
theorem connection_in_order (peer : Side → Identity) (c : Connection)
    (hc : Reachable Connection.step (fun _ l => l.Fits) (.opened peer) c) (s : Side) :
    (∀ id gc, (c.ends s).phase = .running id gc → id = (peer s.other).nodeId ∧
      gc = (peer s.other).gcReplica) ∧
      (c.ends s).forwarded <+: (c.ends s.other).accepted.filter fun x => x.1.payload.isSome := by
  obtain ⟨hinv, hid⟩ := inv_of_reachable hc
  refine ⟨fun id gc hphase => ?_, ?_⟩
  · rw [← hid s.other]
    exact hinv.remote (Or.inr hphase)
  · rw [(hinv.ends s).forwarded]
    exact ((hinv.received_prefix s).drop 1).filter _

instance (l : Label) : Decidable l.Fits := by
  cases l <;> unfold Label.Fits <;> infer_instance

theorem short_a : (handshakeEnvelope "a" "a" false).encodeToVec.length ≤ MAX_FRAME_LEN.toNat :=
  Nat.le_of_ble_eq_true (by decide +kernel)

theorem short_b : (handshakeEnvelope "b" "b" true).encodeToVec.length ≤ MAX_FRAME_LEN.toNat :=
  Nat.le_of_ble_eq_true (by decide +kernel)

/-- Two peers with short names. -/
def peers : Side → Identity
  | .initiator => ⟨"a", "a", false, short_a⟩
  | .acceptor => ⟨"b", "b", true, short_b⟩

def pullRequest : ValidEnvelope :=
  ⟨⟨some (.crdtPullRequest { crdtId := "x" })⟩,
    by simp [Envelope.Fits, Payload.Fits, CrdtPullRequest.Fits], by decide +kernel⟩

/-- The handshake in pieces, and a pull request. -/
def pullRequestRun : List Label :=
  [.write .initiator 14, .arrive .initiator 5, .flushed .initiator, .read .acceptor,
    .arrive .initiator 9, .read .acceptor,
    .write .acceptor 16, .arrive .acceptor 16, .flushed .acceptor, .read .initiator,
      .read .initiator,
    .offer .initiator pullRequest, .take .initiator, .write .initiator 9,
      .arrive .initiator 9, .read .acceptor,
    .read .acceptor]

/-- The connection after this run. -/
def afterPullRequest : Connection :=
  (Transition.replay Connection.step (fun _ l => l.Fits) (.opened peers) pullRequestRun).getD
    (.opened peers)

theorem connection_in_order_pullRequest :
    (afterPullRequest.ends .acceptor).phase = .running "a" false ∧
    (afterPullRequest.ends .acceptor).forwarded = [pullRequest] ∧
    (afterPullRequest.ends .acceptor).forwarded <+:
      (afterPullRequest.ends .initiator).accepted.filter fun x => x.1.payload.isSome := by
  have hrun : (Transition.replay Connection.step (fun _ l => l.Fits)
      (.opened peers) pullRequestRun).isSome = true := by
    decide +kernel
  obtain ⟨c, hc⟩ := Option.isSome_iff_exists.mp hrun
  have hafter : afterPullRequest = c := by
    unfold afterPullRequest
    rw [hc, Option.getD_some]
  refine ⟨by decide +kernel, by decide +kernel, ?_⟩
  rw [hafter]
  exact (connection_in_order peers c (Transition.reachable_of_replay pullRequestRun .start hc)
    .acceptor).2

end TcpConnection

end ExperimentalCrdt
