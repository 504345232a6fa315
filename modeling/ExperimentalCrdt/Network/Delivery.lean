import ExperimentalCrdt.Network.InOrder

/-!
# A connection delivers

As long as the network holds and nobody gives up, a connection does not get stuck, in the handshake
or later: the tasks of the two sides cannot run on forever without a new envelope, and when they
have nothing left to do, each side has registered the other and its application has been sent
everything that was handed over (`connection_delivers`). No frame is too large for that, the largest
one included.
-/

namespace ExperimentalCrdt

namespace TcpConnection

open Protocol Proto
open Transition (Reachable Halts)

/-- The steps of the tasks and of the network; the rest is handing over, giving up and failure. -/
def Label.works : Label → Bool
  | .write _ _ | .arrive _ _ | .flushed _ | .read _ | .take _ => true
  | _ => false

/-- The tasks work, and envelopes that are not too large are handed over. -/
def Label.Undisturbed : Label → Prop
  | .offer _ envelope => size envelope ≤ MAX_FRAME_LEN.toNat
  | l => l.works = true

theorem maxFrameLen_lt : MAX_FRAME_LEN.toNat < 2 ^ 32 := MAX_FRAME_LEN.toNat_lt

theorem Label.Undisturbed.fits {l : Label} (h : l.Undisturbed) : l.Fits := by
  cases l with
  | offer s envelope => exact Nat.lt_of_le_of_lt h maxFrameLen_lt
  | _ => trivial

/-- Nobody has given up, and no frame is too large. -/
structure Healthy (c : Connection) : Prop where
  holds : c.broken = false
  alive : ∀ s, (c.ends s).phase ≠ .ended ∧ (c.ends s).writing = true
  sizes : ∀ s, ∀ x ∈ (c.ends s).sent, size x ≤ MAX_FRAME_LEN.toNat

/-- What a task does to a healthy connection. -/
inductive Work (c : Connection) : Connection → Prop where
  | write (s : Side) {k : Nat} (hpos : 0 < k) (hle : k ≤ (c.ends s).outgoing.length) :
      Work c ((c.setEnd s { c.ends s with outgoing := (c.ends s).outgoing.drop k }).setPipe s
        { c.pipes s with flight := (c.pipes s).flight ++ (c.ends s).outgoing.take k })
  | arrive (s : Side) {k : Nat} (hpos : 0 < k) (hle : k ≤ (c.pipes s).flight.length) :
      Work c (c.setPipe s
        ⟨(c.pipes s).flight.drop k, (c.pipes s).arrived ++ (c.pipes s).flight.take k⟩)
  | flushed (s : Side) {e : Endpoint} {evs : List Event}
    (h : (c.ends s).flushed s = some (e, evs)) : Work c (c.setEnd s e)
  | header (s : Side) (hnone : (c.ends s).header = none)
      (hlen : 4 ≤ (c.pipes s.other).arrived.length) :
      Work c ((c.setEnd s
        { c.ends s with header := some (fromBeBytes ((c.pipes s.other).arrived.take 4)) }).setPipe
          s.other
        { c.pipes s.other with arrived := (c.pipes s.other).arrived.drop 4 })
  | payload (s : Side) {len : UInt32} {envelope : ValidEnvelope} (hreads : (c.ends s).reads = true)
      (hsome : (c.ends s).header = some len) (hlen : len.toNat ≤ (c.pipes s.other).arrived.length)
      (hfirst : (c.ends s).phase = .receiveHandshake →
        envelope = (c.ends s.other).identity.handshake) :
      Work c ((c.setEnd s ((c.ends s).receive s envelope).1).setPipe s.other
        { c.pipes s.other with arrived := (c.pipes s.other).arrived.drop len.toNat })
  | take (s : Side) {envelope : ValidEnvelope} {rest : List ValidEnvelope}
      (hrx : (c.ends s).rx = envelope :: rest)
      (houtgoing : (c.ends s).outgoing = []) :
      Work c (c.setEnd s { c.ends s with rx := rest, outgoing := frame envelope })

section delivery

variable {c c' : Connection} {s : Side} {l : Label} {evs : List Event}

theorem readPayload_of_carried {e r : Endpoint} {p : Pipe} {unread : List ValidEnvelope}
    {len : UInt32} (h : Carried e r p unread) (hsome : r.header = some len)
    (hsizes : ∀ x ∈ unread, size x ≤ MAX_FRAME_LEN.toNat) :
    ∃ envelope rest, unread = envelope :: rest ∧ len.toNat = size envelope ∧ len ≤ MAX_FRAME_LEN ∧
      (len.toNat ≤ p.arrived.length →
        readPayload Envelope.codec len p.arrived =
          .ok (some (envelope, p.arrived.drop len.toNat))) := by
  have hfront := h.front
  unfold onTheWay at hfront
  rw [hsome, headerBytes, List.append_assoc] at hfront
  obtain ⟨envelope, rest, rfl, hlen, hbytes⟩ :=
    payload_of_prefix hfront fun x hx => Nat.lt_of_le_of_lt (hsizes x hx) maxFrameLen_lt
  have hmax : len ≤ MAX_FRAME_LEN := by
    rw [UInt32.le_iff_toNat_le, hlen]
    exact hsizes _ List.mem_cons_self
  refine ⟨envelope, rest, rfl, hlen, hmax, fun harrived => ?_⟩
  obtain ⟨tail, htail⟩ := hbytes
  have htake := congrArg (List.take len.toNat) htail
  rw [List.append_assoc, List.append_assoc, List.take_append_of_le_length harrived,
    List.take_append_of_le_length (by rw [hlen]; exact Nat.le_refl _), hlen] at htake
  have hencoded : p.arrived.take (size envelope) = envelope.1.encodeToVec :=
    htake.trans List.take_length
  refine readPayload_eq_ok_iff.mpr ⟨hmax, harrived, envelope, ?_, rfl⟩
  rw [hlen, hencoded]
  exact Envelope.codec.decode_encode envelope

theorem Healthy.atEnd (h : Healthy c) (s : Side) : c.atEnd s = false := by
  unfold Connection.atEnd Endpoint.closed
  rw [(h.alive s.other).2]
  simp

theorem Inv.unread (hinv : Inv c) (s : Side) :
    ∃ unread, Carried (c.ends s.other) (c.ends s) (c.pipes s.other) unread := by
  obtain ⟨unread, hcarried⟩ := hinv.pipes s.other
  rw [Side.other_other] at hcarried
  exact ⟨unread, hcarried⟩

theorem Carried.sizes {e r : Endpoint} {p : Pipe} {unread : List ValidEnvelope}
    (h : Carried e r p unread) {n : Nat} (hsent : ∀ x ∈ e.sent, size x ≤ n) :
    ∀ x ∈ unread, size x ≤ n := by
  intro x hx
  refine hsent x ?_
  rw [h.sent]
  exact List.mem_append_right _ hx

theorem work_of_read (hinv : Inv c) (hh : Healthy c) (h : c.read s = some (c', evs)) :
    Work c c' := by
  unfold Connection.read at h
  dsimp only at h
  split at h
  · cases h
  · next hreads =>
    rw [Bool.not_eq_true, Bool.not_eq_false] at hreads
    split at h
    · next hnone =>
      split at h
      · next hread =>
        obtain ⟨rfl, rfl⟩ := Prod.mk.inj (Option.some.inj h)
        obtain ⟨hlen, heq⟩ := readExact_eq_some_iff.mp hread
        obtain ⟨rfl, rfl⟩ := Prod.mk.inj heq
        exact .header s hnone hlen
      · rw [hh.atEnd] at h
        cases h
    · next len hsome =>
      obtain ⟨unread, hcarried⟩ := hinv.unread s
      obtain ⟨envelope, rest, hunread, -, hmax, hok⟩ :=
        readPayload_of_carried hcarried hsome (hcarried.sizes (hh.sizes s.other))
      by_cases hlen : len.toNat ≤ (c.pipes s.other).arrived.length
      · rw [hok hlen] at h
        obtain ⟨rfl, rfl⟩ := Prod.mk.inj (Option.some.inj h)
        refine .payload s hreads hsome hlen fun hphase => ?_
        have hreceived := (hinv.ends s).early (Or.inr hphase)
        have hsent := hcarried.sent
        rw [hreceived, hunread, List.nil_append] at hsent
        rcases (hinv.ends s.other).greeted with ⟨accepted, hgreeted⟩ | ⟨hnone, -⟩
        · exact (List.cons.inj (hsent.symm.trans hgreeted)).1
        · rw [hnone] at hsent
          cases hsent
      · -- the payload has not arrived yet
        have hshort : readPayload Envelope.codec len (c.pipes s.other).arrived =
            .error .unexpectedEof := by
          unfold readPayload readExact
          rw [if_neg (UInt32.not_lt.mpr hmax), if_neg hlen]
        rw [hshort] at h
        dsimp only at h
        rw [hh.atEnd] at h
        cases h

theorem work_of_step (hinv : Inv c) (hh : Healthy c) (hl : l.works = true)
    (h : c.step l = some c') : Work c c' := by
  obtain ⟨⟨c'', evs⟩, hadvance, rfl⟩ := Option.map_eq_some_iff.mp h
  cases l with
  | write s k =>
    change (if _ then _ else _) = _ at hadvance
    split at hadvance
    · next hguard =>
      obtain ⟨rfl, rfl⟩ := Prod.mk.inj (Option.some.inj hadvance)
      exact .write s hguard.2.2.1 hguard.2.2.2
    · cases hadvance
  | arrive s k =>
    change (if _ then _ else _) = _ at hadvance
    split at hadvance
    · next hguard =>
      obtain ⟨rfl, rfl⟩ := Prod.mk.inj (Option.some.inj hadvance)
      exact .arrive s hguard.2.1 hguard.2.2
    · cases hadvance
  | flushed s =>
    obtain ⟨⟨e, evs'⟩, hflushed, heq⟩ := Option.map_eq_some_iff.mp hadvance
    obtain ⟨rfl, rfl⟩ := Prod.mk.inj heq
    exact .flushed s hflushed
  | read s => exact work_of_read hinv hh hadvance
  | take s =>
    unfold Connection.advance at hadvance
    dsimp only at hadvance
    split at hadvance
    · next envelope rest hrx =>
      split at hadvance
      · next hguard =>
        obtain ⟨rfl, rfl⟩ := Prod.mk.inj (Option.some.inj hadvance)
        exact .take s hrx hguard.2
      · cases hadvance
    · cases hadvance
  | _ => cases hl

theorem Healthy.setEnd (hh : Healthy c) {e : Endpoint}
    (halive : e.phase ≠ .ended ∧ e.writing = true)
    (hsizes : ∀ x ∈ e.sent, size x ≤ MAX_FRAME_LEN.toNat) : Healthy (c.setEnd s e) := by
  refine ⟨hh.holds, fun t => ?_, fun t => ?_⟩
  · rcases s.eq_or_eq_other t with rfl | rfl
    · rw [Connection.setEnd_self]
      exact halive
    · rw [Connection.setEnd_other]
      exact hh.alive _
  · rcases s.eq_or_eq_other t with rfl | rfl
    · rw [Connection.setEnd_self]
      exact hsizes
    · rw [Connection.setEnd_other]
      exact hh.sizes _

theorem Healthy.setPipe (hh : Healthy c) (s : Side) (p : Pipe) : Healthy (c.setPipe s p) :=
  ⟨hh.holds, hh.alive, hh.sizes⟩

theorem flushed_eq_some {e e' : Endpoint} (h : e.flushed s = some (e', evs)) : e.outgoing = [] ∧
    ((e.phase = .sendHandshake ∧ e' = { e with phase := .receiveHandshake }) ∨
      ∃ id gc, e.phase = .replyHandshake id gc ∧ e' = e.register id gc) := by
  unfold Endpoint.flushed at h
  split at h
  · next houtgoing =>
    refine ⟨houtgoing, ?_⟩
    split at h
    · next hphase =>
      obtain ⟨rfl, -⟩ := Prod.mk.inj (Option.some.inj h)
      exact Or.inl ⟨hphase, rfl⟩
    · next id gc hphase =>
      obtain ⟨rfl, -⟩ := Prod.mk.inj (Option.some.inj h)
      exact Or.inr ⟨id, gc, hphase, rfl⟩
    · cases h
  · cases h

theorem receive_cases {e : Endpoint} {envelope : ValidEnvelope} (s : Side) (hreads : e.reads = true)
    (hfirst : e.phase = .receiveHandshake → ∃ id gc,
      Endpoint.receiveHandshake envelope = some (id, gc)) :
    let e' := (e.receive s envelope).1
    e'.header = none ∧ e'.rx = e.rx ∧ e'.identity = e.identity ∧ e'.writing = e.writing ∧
      ((e.phase = .receiveHandshake ∧ (∃ id gc, e'.phase = .running id gc) ∧
        e'.outgoing = e.outgoing ∧ e'.sent = e.sent) ∨
        (e.phase = .receiveHandshake ∧ (∃ id gc, e'.phase = .replyHandshake id gc) ∧
          e'.outgoing = frame e.identity.handshake ∧ e'.sent = e.sent ++ [e.identity.handshake]) ∨
        (e'.phase = e.phase ∧ (∃ id gc, e.phase = .running id gc) ∧
            e'.outgoing = e.outgoing ∧ e'.sent = e.sent)) := by
  unfold Endpoint.receive
  dsimp only
  split
  · next hphase =>
    obtain ⟨id, gc, hknown⟩ := hfirst hphase
    rw [hknown]
    dsimp only
    cases s with
    | initiator => exact ⟨rfl, rfl, rfl, rfl, Or.inl ⟨hphase, ⟨id, gc, rfl⟩, rfl, rfl⟩⟩
    | acceptor => exact ⟨rfl, rfl, rfl, rfl, Or.inr (Or.inl ⟨hphase, ⟨id, gc, rfl⟩, rfl, rfl⟩)⟩
  · next hphase =>
    have hrunning : ∃ id gc, e.phase = .running id gc := by
      unfold Endpoint.reads at hreads
      split at hreads
      · next hp => exact absurd hp hphase
      · next id gc hp => exact ⟨id, gc, hp⟩
      · cases hreads
    unfold Endpoint.dispatch
    split
    · exact ⟨rfl, rfl, rfl, rfl, Or.inr (Or.inr ⟨rfl, hrunning, rfl, rfl⟩)⟩
    · exact ⟨rfl, rfl, rfl, rfl, Or.inr (Or.inr ⟨rfl, hrunning, rfl, rfl⟩)⟩

theorem Work.healthy (hh : Healthy c) (hw : Work c c') : Healthy c' := by
  cases hw with
  | write s _ _ =>
    refine Healthy.setPipe (hh.setEnd ?_ ?_) s _
    · exact hh.alive s
    · exact hh.sizes s
  | arrive s _ _ => exact hh.setPipe s _
  | flushed s hflushed =>
    obtain ⟨-, ⟨-, rfl⟩ | ⟨id, gc, -, rfl⟩⟩ := flushed_eq_some hflushed
    · exact hh.setEnd ⟨nofun, (hh.alive s).2⟩ (hh.sizes s)
    · exact hh.setEnd ⟨nofun, (hh.alive s).2⟩ (hh.sizes s)
  | header s _ _ =>
    refine Healthy.setPipe (hh.setEnd ?_ ?_) s.other _
    · exact hh.alive s
    · exact hh.sizes s
  | take s _ _ => exact hh.setEnd (hh.alive s) (hh.sizes s)
  | @payload s len envelope hreads _ _ hfirst =>
    have hknown : (c.ends s).phase = .receiveHandshake →
        ∃ id gc, Endpoint.receiveHandshake envelope = some (id, gc) := by
      intro hphase
      rw [hfirst hphase]
      exact ⟨_, _, receiveHandshake_handshake _⟩
    obtain ⟨-, -, -, hwriting, hcases⟩ := receive_cases s hreads hknown
    refine (hh.setEnd ⟨?_, hwriting.trans (hh.alive s).2⟩ ?_).setPipe s.other _
    · rcases hcases with ⟨-, ⟨id, gc, hphase⟩, -⟩ | ⟨-, ⟨id, gc, hphase⟩, -⟩ | ⟨hphase, -⟩
      · rw [hphase]
        exact nofun
      · rw [hphase]
        exact nofun
      · rw [hphase]
        exact (hh.alive s).1
    · rcases hcases with ⟨-, -, -, hsent⟩ | ⟨-, -, -, hsent⟩ | ⟨-, -, -, hsent⟩
      · rw [hsent]
        exact hh.sizes s
      · rw [hsent]
        exact List.forall_mem_append.mpr
          ⟨hh.sizes s, List.forall_mem_singleton.mpr (c.ends s).identity.short⟩
      · rw [hsent]
        exact hh.sizes s

theorem Healthy.step (hinv : Inv c) (hh : Healthy c) (hl : l.Undisturbed) (h : c.step l = some c') :
    Healthy c' := by
  cases l with
  | offer s envelope =>
    obtain ⟨⟨c'', evs⟩, hadvance, rfl⟩ := Option.map_eq_some_iff.mp h
    obtain ⟨e, hsent, heq⟩ := Option.map_eq_some_iff.mp hadvance
    obtain ⟨rfl, rfl⟩ := Prod.mk.inj heq
    obtain ⟨-, -, rfl⟩ := trySend_eq_some hsent
    exact hh.setEnd (hh.alive s)
      (List.forall_mem_append.mpr ⟨hh.sizes s, List.forall_mem_singleton.mpr hl⟩)
  | write | arrive | flushed | read | take => exact (work_of_step hinv hh hl h).healthy hh
  | _ => cases hl

/-! ## What is left to do -/

/-- What a phase of the handshake costs, the own handshake included. -/
def phaseCost (e : Endpoint) : Nat :=
  match e.phase with
  | .sendHandshake => 3 + 3 * (frame e.identity.handshake).length
  | .receiveHandshake => 2 + 3 * (frame e.identity.handshake).length
  | .replyHandshake _ _ => 1
  | .running _ _ | .ended => 0

/-- What the frames in the channel cost. -/
def rxCost (rx : List ValidEnvelope) : Nat := (rx.map fun x => 3 * (frame x).length + 1).sum

/-- A byte costs three before it is written, two while it is in flight and one until it is read; a
header that was read costs one again. -/
def endCost (e : Endpoint) : Nat :=
  phaseCost e + 3 * e.outgoing.length + rxCost e.rx + (if e.header.isSome then 1 else 0)

def pipeCost (p : Pipe) : Nat := 2 * p.flight.length + p.arrived.length

def cost (c : Connection) : Nat :=
  endCost (c.ends .initiator) + endCost (c.ends .acceptor) +
    (pipeCost (c.pipes .initiator) + pipeCost (c.pipes .acceptor))

theorem cost_eq (c : Connection) (s : Side) :
    cost c = endCost (c.ends s) + endCost (c.ends s.other) +
      (pipeCost (c.pipes s) + pipeCost (c.pipes s.other)) := by
  unfold cost
  cases s with
  | initiator => rfl
  | acceptor =>
    show _ = endCost (c.ends .acceptor) + endCost
      (c.ends .initiator) + (pipeCost (c.pipes .acceptor) + pipeCost (c.pipes .initiator))
    omega

theorem cost_setEnd_lt {e : Endpoint} (h : endCost e < endCost (c.ends s)) :
    cost (c.setEnd s e) < cost c := by
  rw [cost_eq _ s, cost_eq c s, Connection.setEnd_self, Connection.setEnd_other,
    Connection.setEnd_pipes]
  omega

theorem Work.cost_lt (hw : Work c c') : cost c' < cost c := by
  cases hw with
  | @write s k hpos hle =>
    rw [cost_eq _ s, cost_eq c s, Connection.setPipe_ends, Connection.setEnd_self,
      Connection.setEnd_other,
      Connection.setPipe_self, Connection.setPipe_other', Connection.setEnd_pipes]
    unfold endCost pipeCost phaseCost
    dsimp only
    rw [List.length_drop, List.length_append, List.length_take, Nat.min_eq_left hle]
    omega
  | @arrive s k hpos hle =>
    rw [cost_eq _ s, cost_eq c s, Connection.setPipe_ends, Connection.setPipe_self,
      Connection.setPipe_other']
    unfold pipeCost
    rw [List.length_drop, List.length_append, List.length_take, Nat.min_eq_left hle]
    omega
  | flushed s hflushed =>
    refine cost_setEnd_lt ?_
    unfold endCost phaseCost
    obtain ⟨-, ⟨hphase, rfl⟩ | ⟨id, gc, hphase, rfl⟩⟩ := flushed_eq_some hflushed
    · rw [hphase]
      dsimp only
      omega
    · rw [hphase]
      unfold Endpoint.register
      dsimp only
      omega
  | header s hnone hlen =>
    rw [cost_eq _ s, cost_eq c s, Connection.setPipe_ends, Connection.setEnd_self,
      Connection.setEnd_other,
      Connection.setPipe_self, Connection.setPipe_other, Connection.setEnd_pipes]
    unfold endCost pipeCost phaseCost
    dsimp only
    rw [List.length_drop, hnone, Option.isSome_some, if_pos rfl]
    omega
  | @payload s len envelope hreads hsome hlen hfirst =>
    have hknown : (c.ends s).phase = .receiveHandshake →
        ∃ id gc, Endpoint.receiveHandshake envelope = some (id, gc) := by
      intro hphase
      rw [hfirst hphase]
      exact ⟨_, _, receiveHandshake_handshake _⟩
    obtain ⟨hheader, hrx, hidentity, -, hcases⟩ := receive_cases s hreads hknown
    have hend : endCost ((c.ends s).receive s envelope).1 < endCost (c.ends s) := by
      unfold endCost phaseCost
      rw [hheader, hrx, hsome, hidentity, Option.isSome_some, if_pos rfl,
        Option.isSome_none, if_neg Bool.false_ne_true]
      rcases hcases with ⟨hbefore, ⟨id, gc, hphase⟩, houtgoing, -⟩ |
        ⟨hbefore, ⟨id, gc, hphase⟩, houtgoing, -⟩ |
        ⟨hphase, -, houtgoing, -⟩
      · rw [hbefore, hphase, houtgoing]
        dsimp only
        omega
      · rw [hbefore, hphase, houtgoing]
        dsimp only
        omega
      · rw [hphase, houtgoing]
        omega
    rw [cost_eq _ s, cost_eq c s, Connection.setPipe_ends, Connection.setEnd_self,
      Connection.setEnd_other,
      Connection.setPipe_self, Connection.setPipe_other, Connection.setEnd_pipes]
    unfold pipeCost
    dsimp only
    rw [List.length_drop]
    omega
  | take s hrx houtgoing =>
    refine cost_setEnd_lt ?_
    unfold endCost phaseCost rxCost
    rw [hrx, houtgoing, List.map_cons, List.sum_cons]
    dsimp only [List.length_nil]
    omega

/-! ## When nothing is left to do -/

/-- No task of the connection can go on. -/
def Done (c : Connection) : Prop := ∀ l : Label, l.works = true → c.advance l = none

theorem Done.outgoing (hd : Done c) (hh : Healthy c) (s : Side) : (c.ends s).outgoing = [] := by
  by_contra hne
  have hpos := List.length_pos_iff.mpr hne
  have hnone := hd (.write s 1) rfl
  change (if _ then _ else _) = none at hnone
  rw [if_pos ⟨(hh.alive s).2, by rw [hh.holds]; exact Bool.false_ne_true, by omega, hpos⟩] at hnone
  cases hnone

theorem Done.flight (hd : Done c) (hh : Healthy c) (s : Side) : (c.pipes s).flight = [] := by
  by_contra hne
  have hpos := List.length_pos_iff.mpr hne
  have hnone := hd (.arrive s 1) rfl
  change (if _ then _ else _) = none at hnone
  rw [if_pos ⟨by rw [hh.holds]; exact Bool.false_ne_true, by omega, hpos⟩] at hnone
  cases hnone

theorem Done.reads (hd : Done c) (hh : Healthy c) (s : Side) : (c.ends s).reads = true := by
  have hflushed := Option.map_eq_none_iff.mp (hd (.flushed s) rfl)
  unfold Endpoint.flushed at hflushed
  rw [if_pos (hd.outgoing hh s)] at hflushed
  have halive := (hh.alive s).1
  unfold Endpoint.reads
  split at hflushed
  · cases hflushed
  · cases hflushed
  · next hsend hreply =>
    cases hphase : (c.ends s).phase with
    | sendHandshake => exact absurd hphase hsend
    | replyHandshake id gc => exact absurd hphase (hreply id gc)
    | ended => exact absurd hphase halive
    | receiveHandshake | running => rfl

theorem Done.rx (hd : Done c) (hh : Healthy c) (s : Side) : (c.ends s).rx = [] := by
  have hnone := hd (.take s) rfl
  unfold Connection.advance at hnone
  dsimp only at hnone
  split at hnone
  · rw [if_pos ⟨(hh.alive s).2, hd.outgoing hh s⟩] at hnone
    cases hnone
  · next hrx => exact hrx

theorem Done.received (hd : Done c) (hinv : Inv c) (hh : Healthy c) (s : Side) :
    (c.ends s).received = (c.ends s.other).sent := by
  obtain ⟨unread, hcarried⟩ := hinv.unread s
  suffices hnil : unread = [] by rw [hcarried.sent, hnil, List.append_nil]
  by_contra hne
  -- the bytes of the next frame have arrived
  have hbytes : headerBytes (c.ends s).header ++ (c.pipes s.other).arrived = frames unread := by
    have hwhole := hcarried.whole (hh.alive s.other).2
    unfold onTheWay unwritten at hwhole
    rw [hd.outgoing hh, hd.rx hh, hd.flight hh] at hwhole
    simpa only [List.append_nil, frames, List.flatMap_nil] using hwhole
  obtain ⟨first, rest, rfl⟩ := List.exists_cons_of_ne_nil hne
  have hread : c.read s = none := hd (.read s) rfl
  unfold Connection.read at hread
  dsimp only at hread
  rw [if_neg (by rw [hd.reads hh s]; exact not_not_intro rfl)] at hread
  have hlength : 4 + size first ≤ (frames (first :: rest)).length := by
    rw [frames_cons, frame_eq, List.length_append, List.length_append, length_putU32]
    exact Nat.le_add_right _ _
  rw [← hbytes, List.length_append] at hlength
  split at hread
  · next hnone =>
    rw [hnone] at hlength
    change _ ≤ 0 + _ at hlength
    unfold readExact at hread
    rw [if_pos (by omega)] at hread
    cases hread
  · next len hsome =>
    obtain ⟨envelope, rest', heq, hlen, -, hok⟩ :=
      readPayload_of_carried hcarried hsome (hcarried.sizes (hh.sizes s.other))
    obtain ⟨rfl, rfl⟩ := List.cons.inj heq
    rw [hsome, headerBytes, length_putU32] at hlength
    rw [hok (by omega)] at hread
    cases hread

theorem Done.running (hd : Done c) (hinv : Inv c) (hh : Healthy c) (s : Side) :
    ∃ id gc, (c.ends s).phase = .running id gc := by
  have hreads := hd.reads hh s
  unfold Endpoint.reads at hreads
  split at hreads
  · next hphase =>
    exfalso
    have hreceived := (hinv.ends s).early (Or.inr hphase)
    rw [hd.received hinv hh s] at hreceived
    -- the other side has sent nothing, so it is the acceptor, and it has not read the handshake of
    -- this side
    rcases (hinv.ends s.other).greeted with ⟨accepted, hsent⟩ | ⟨-, hacceptor, hwaits, -⟩
    · rw [hsent] at hreceived
      cases hreceived
    · have hwaits := hwaits.resolve_right (hh.alive s.other).1
      have hsilent := (hinv.ends s.other).early (Or.inr hwaits)
      rw [hd.received hinv hh s.other, Side.other_other] at hsilent
      rcases (hinv.ends s).greeted with ⟨accepted, hsent⟩ | ⟨-, hs, -⟩
      · rw [hsent] at hsilent
        cases hsilent
      · rw [hs] at hacceptor
        cases hacceptor
  · next id gc hphase => exact ⟨id, gc, hphase⟩
  · cases hreads

theorem healthy_opened (peer : Side → Identity) : Healthy (.opened peer) := by
  refine ⟨rfl, fun s => ?_, fun s => ?_⟩
  · cases s <;> exact ⟨nofun, rfl⟩
  · cases s with
    | initiator => exact List.forall_mem_singleton.mpr (peer .initiator).short
    | acceptor => exact fun x hx => (List.not_mem_nil hx).elim

theorem healthy_of_reachable {peer : Side → Identity}
    (h : Reachable Connection.step (fun _ l => l.Undisturbed) (.opened peer) c) :
    Inv c ∧ Healthy c ∧ ∀ s, (c.ends s).identity = peer s := by
  have hfits : Reachable Connection.step (fun _ l => l.Fits) (.opened peer) c :=
    h.weaken fun _ _ hl => hl.fits
  obtain ⟨hinv, hid⟩ := inv_of_reachable hfits
  refine ⟨hinv, ?_, hid⟩
  refine (h.invariant (P := fun c => Inv c ∧ Healthy c) ⟨inv_opened peer, healthy_opened peer⟩ ?_).2
  intro c l c' _ ⟨hc, hh⟩ hl hstep
  obtain ⟨evs, hadvance⟩ := advance_of_step hstep
  exact ⟨(hc.advance hl.fits hadvance).1, hh.step hc hl hstep⟩

theorem halts_of_healthy (hinv : Inv c) (hh : Healthy c) :
    Halts Connection.step (fun l => l.works = true) c := by
  refine Transition.halts_of_descent Nat.lt_wfRel.wf cost
    (P := fun c => Inv c ∧ Healthy c) ?_ ⟨hinv, hh⟩
  intro c l c' ⟨hc, hh⟩ hl hstep
  have hfits : l.Fits := by
    cases l with
    | offer => cases hl
    | _ => trivial
  have hwork := work_of_step hc hh hl hstep
  obtain ⟨evs, hadvance⟩ := advance_of_step hstep
  exact Or.inr ⟨⟨(hc.advance hfits hadvance).1, hwork.healthy hh⟩, hwork.cost_lt⟩

end delivery

/-- **An undisturbed connection delivers**: with no more envelopes handed over its tasks come to
rest, and at rest both sides have registered each other and the applications were sent everything,
in order and once. -/
theorem connection_delivers (peer : Side → Identity) (c : Connection)
    (hc : Reachable Connection.step (fun _ l => l.Undisturbed) (.opened peer) c) :
    Halts Connection.step (fun l => l.works = true) c ∧ (Done c → ∀ s,
      (c.ends s).phase = .running (peer s.other).nodeId (peer s.other).gcReplica ∧
        (c.ends s).forwarded = (c.ends s.other).accepted.filter fun x => x.1.payload.isSome) := by
  obtain ⟨hinv, hh, hid⟩ := healthy_of_reachable hc
  refine ⟨halts_of_healthy hinv hh, fun hd s => ⟨?_, ?_⟩⟩
  · obtain ⟨id, gc, hphase⟩ := hd.running hinv hh s
    obtain ⟨rfl, rfl⟩ := hinv.remote (Or.inr hphase)
    rw [hphase, hid]
  · rw [(hinv.ends s).forwarded, hd.received hinv hh s]
    rfl

instance : (l : Label) → Decidable l.Undisturbed
  | .offer _ envelope => Nat.decLe (size envelope) MAX_FRAME_LEN.toNat
  | .write s k => instDecidableEqBool (Label.write s k).works true
  | .arrive s k => instDecidableEqBool (Label.arrive s k).works true
  | .flushed s => instDecidableEqBool (Label.flushed s).works true
  | .read s => instDecidableEqBool (Label.read s).works true
  | .take s => instDecidableEqBool (Label.take s).works true
  | .dropHandle s => instDecidableEqBool (Label.dropHandle s).works true
  | .writerDone s => instDecidableEqBool (Label.writerDone s).works true
  | .abort s => instDecidableEqBool (Label.abort s).works true
  | .reset => instDecidableEqBool Label.reset.works true
  | .readError s => instDecidableEqBool (Label.readError s).works true
  | .writeError s => instDecidableEqBool (Label.writeError s).works true

/-- The pull request gets through, whatever is done after it was handed over. -/
theorem connection_delivers_pullRequest :
    ∃ c : Connection, (c.ends .initiator).accepted = [pullRequest] ∧
    Halts Connection.step (fun l => l.works = true) c ∧ (Done c → ∀ s,
      (c.ends s).phase = .running (peers s.other).nodeId (peers s.other).gcReplica ∧
        (c.ends s).forwarded = (c.ends s.other).accepted.filter fun x => x.1.payload.isSome) := by
  have hrun : (Transition.replay Connection.step (fun _ l => l.Undisturbed) (.opened peers)
      (pullRequestRun.take 13)).isSome = true := by decide +kernel
  have haccepted :
      ∀ c ∈ Transition.replay Connection.step (fun _ l => l.Undisturbed) (.opened peers)
      (pullRequestRun.take 13), (c.ends .initiator).accepted = [pullRequest] := by decide +kernel
  obtain ⟨c, hc⟩ := Option.isSome_iff_exists.mp hrun
  exact ⟨c, haccepted c hc, connection_delivers peers c
    (Transition.reachable_of_replay _ .start hc)⟩

end TcpConnection

end ExperimentalCrdt
