import ExperimentalCrdt.Lib.Transition
import Mathlib.Data.List.Infix
import Mathlib.Data.Prod.Lex

/-!
# A dialogue over two byte streams

A client and a server talk in turn. The client writes a request as a frame and waits for the answer
before it goes on with the next request; the server reads a frame, answers with a frame, and reads
on. A socket takes the bytes of a frame piece by piece, and they arrive piece by piece. Either side
may give up at any time.

What the client hears are the server's answers to its requests, one after the other (`in_turn`), and
if nobody gives up, every request gets its answer (`all_answered`).
-/

namespace Dialogue

open Transition (Reachable Halts)

/-- How payloads are told apart on a stream. Only payloads that fit come out as they were. -/
structure Framing where
  frame : List UInt8 → List UInt8
  read : List UInt8 → Option (List UInt8 × List UInt8)
  Fits : List UInt8 → Prop
  read_frame : ∀ payload, Fits payload → read (frame payload) = some (payload, [])
  read_part : ∀ payload part, Fits payload → part <+: frame payload →
    part ≠ frame payload → read part = none
  read_nil : read [] = none

/-- How requests and responses are written, and what the server makes of a request. -/
structure Language (Q M R : Type) where
  encode : Q → List UInt8
  understand : List UInt8 → M
  respond : R → List UInt8

/-! ## Pipes -/

/-- The bytes of one direction: what a task has yet to write, what is on its way, and what was not
read yet. -/
structure Pipe where
  unwritten : List UInt8
  transit : List UInt8
  arrived : List UInt8
deriving DecidableEq

namespace Pipe

def empty : Pipe := ⟨[], [], []⟩

variable (f : Framing) (p : Pipe) (k : Nat)

def contents : List UInt8 := p.arrived ++ p.transit ++ p.unwritten

/-- The socket takes some bytes. -/
def write : Option Pipe :=
  if 0 < k ∧ k ≤ p.unwritten.length then
    some { p with unwritten := p.unwritten.drop k, transit := p.transit ++ p.unwritten.take k }
  else none

/-- Some bytes arrive. -/
def arrive : Option Pipe :=
  if 0 < k ∧ k ≤ p.transit.length then
    some { p with transit := p.transit.drop k, arrived := p.arrived ++ p.transit.take k }
  else none

/-- A task begins to write. -/
def put (bytes : List UInt8) : Option Pipe :=
  if p.unwritten = [] then some { p with unwritten := bytes } else none

/-- A task reads a frame. -/
def take : Option (List UInt8 × Pipe) :=
  (f.read p.arrived).map fun out => (out.1, { p with arrived := out.2 })

/-- How far the bytes still have to go. -/
def distance : Nat := 2 * p.unwritten.length + p.transit.length

variable {f p k} {p' : Pipe} {bytes payload : List UInt8}

theorem contents_write (h : p.write k = some p') :
    p'.contents = p.contents ∧ p'.distance < p.distance := by
  obtain ⟨⟨hk, hle⟩, heq⟩ := Option.ite_none_right_eq_some.mp h
  obtain rfl := Option.some.inj heq
  constructor
  · simp [contents]
  · simp only [distance, List.length_drop, List.length_append, List.length_take]
    omega

theorem contents_arrive (h : p.arrive k = some p') :
    p'.contents = p.contents ∧ p'.distance < p.distance := by
  obtain ⟨⟨hk, hle⟩, heq⟩ := Option.ite_none_right_eq_some.mp h
  obtain rfl := Option.some.inj heq
  constructor
  · simp [contents]
  · simp only [distance, List.length_drop]
    omega

theorem contents_put (h : p.put bytes = some p') (hp : p.contents = []) : p'.contents = bytes := by
  obtain ⟨-, heq⟩ := Option.ite_none_right_eq_some.mp h
  obtain rfl := Option.some.inj heq
  simp only [contents, List.append_eq_nil_iff] at hp ⊢
  rw [hp.1.1, hp.1.2]
  rfl

theorem unwritten_of_contents (hp : p.contents = []) : p.unwritten = [] := by
  simp only [contents, List.append_eq_nil_iff] at hp
  exact hp.2

theorem take_of_contents (hp : p.contents = []) : p.take f = none := by
  simp only [contents, List.append_eq_nil_iff] at hp
  unfold take
  rw [hp.1.1, f.read_nil]
  rfl

theorem take_eq_some (hfits : f.Fits payload) (hp : p.contents = f.frame payload)
    (h : p.take f = some (bytes, p')) :
    bytes = payload ∧ p'.contents = [] := by
  obtain ⟨⟨payload', rest⟩, hread, heq⟩ := Option.map_eq_some_iff.mp h
  obtain ⟨rfl, rfl⟩ := Prod.mk.inj heq
  have hpart : p.arrived <+: f.frame payload := by
    rw [← hp, contents, List.append_assoc]
    exact List.prefix_append _ _
  by_cases hall : p.arrived = f.frame payload
  · rw [hall, f.read_frame payload hfits] at hread
    obtain ⟨rfl, rfl⟩ := Prod.mk.inj (Option.some.inj hread)
    have hrest : p.transit ++ p.unwritten = [] := by
      rw [contents, hall, List.append_assoc] at hp
      exact List.append_right_eq_self.mp hp
    obtain ⟨htransit, hunwritten⟩ := List.append_eq_nil_iff.mp hrest
    exact ⟨rfl, by rw [contents, htransit, hunwritten]; rfl⟩
  · rw [f.read_part payload _ hfits hpart hall] at hread
    cases hread

theorem take_of_still (hfits : f.Fits payload) (hp : p.contents = f.frame payload)
    (hwrite : ∀ k, p.write k = none) (harrive : ∀ k, p.arrive k = none) : p.unwritten = [] ∧
    ∃ p', p.take f = some (payload, p') := by
  have hunwritten : p.unwritten = [] := by
    by_contra hne
    have hlen := List.length_pos_iff.mpr hne
    have hnone := hwrite 1
    rw [write, if_pos ⟨Nat.one_pos, hlen⟩] at hnone
    cases hnone
  have htransit : p.transit = [] := by
    by_contra hne
    have hlen := List.length_pos_iff.mpr hne
    have hnone := harrive 1
    rw [arrive, if_pos ⟨Nat.one_pos, hlen⟩] at hnone
    cases hnone
  have harrived : p.arrived = f.frame payload := by
    rw [← hp, contents, htransit, hunwritten, List.append_nil, List.append_nil]
  refine ⟨hunwritten, { p with arrived := [] }, ?_⟩
  rw [take, harrived, f.read_frame payload hfits]
  rfl

end Pipe

/-! ## The two sides -/

/-- The client has requests to make and may be waiting for an answer; the server may have a request
to answer. What was heard and what was served is on record. -/
structure State (Q M R : Type) where
  todo : List Q
  waiting : Option Q
  heard : List (Q × List UInt8)
  clientOpen : Bool
  handling : Option M
  served : List (M × R)
  serverOpen : Bool
  up : Pipe
  down : Pipe

inductive Label (R : Type) where
  | ask
  | hear
  | read
  | answer (r : R)
  | writeUp (k : Nat)
  | writeDown (k : Nat)
  | arriveUp (k : Nat)
  | arriveDown (k : Nat)
  | stopClient
  | stopServer

section step

variable {Q M R : Type} (f : Framing) (lang : Language Q M R)

def State.initial (requests : List Q) : State Q M R :=
  { todo := requests, waiting := none, heard := [], clientOpen := true,
    handling := none, served := [],
    serverOpen := true, up := .empty, down := .empty }

variable (st : State Q M R)

/-- The client writes the next request. -/
def ask : Option (State Q M R) :=
  match st.waiting, st.todo with
  | none, q :: todo =>
    if st.clientOpen then
      (st.up.put (f.frame (lang.encode q))).map fun up => { st with todo, waiting := some q, up }
    else none
  | _, _ => none

/-- The client reads the answer, after it has written the request. -/
def hear : Option (State Q M R) :=
  match st.waiting with
  | some q =>
    if st.clientOpen ∧ st.up.unwritten = [] then
      (st.down.take f).map fun out =>
        { st with waiting := none, heard := st.heard ++ [(q, out.1)], down := out.2 }
    else none
  | none => none

/-- The server reads a request, after it has written the last answer. -/
def read : Option (State Q M R) :=
  match st.handling with
  | none =>
    if st.serverOpen ∧ st.down.unwritten = [] then
      (st.up.take f).map fun out =>
        { st with handling := some (lang.understand out.1), up := out.2 }
    else none
  | some _ => none

/-- The server has worked out an answer. -/
def answer (r : R) : Option (State Q M R) :=
  match st.handling with
  | some m =>
    if st.serverOpen then
      (st.down.put (f.frame (lang.respond r))).map fun down =>
        { st with handling := none, served := st.served ++ [(m, r)], down }
    else none
  | none => none

def step : Label R → Option (State Q M R)
  | .ask => ask f lang st
  | .hear => hear f st
  | .read => read f lang st
  | .answer r => answer f lang st r
  | .writeUp k => if st.clientOpen then (st.up.write k).map fun up => { st with up } else none
  | .writeDown k =>
    if st.serverOpen then (st.down.write k).map fun down => { st with down } else none
  | .arriveUp k => (st.up.arrive k).map fun up => { st with up }
  | .arriveDown k => (st.down.arrive k).map fun down => { st with down }
  | .stopClient => some { st with clientOpen := false }
  | .stopServer => some { st with serverOpen := false }

end step

/-! ## Taking turns -/

section turns

variable {Q M R : Type} {f : Framing} {lang : Language Q M R} {requests : List Q}
  {st st' : State Q M R}

/-- What was heard is what was served. -/
def Heard (lang : Language Q M R) (heard : List (Q × List UInt8)) (served : List (M × R)) : Prop :=
  heard.map (fun e => (lang.understand (lang.encode e.1), e.2)) = served.map fun e =>
    (e.1, lang.respond e.2)

/-- Whose turn it is, with the bytes of the two directions: the client's, or that of the request, of
the server, or of its answer. -/
inductive Turn (f : Framing) (lang : Language Q M R) :
    Option Q → Option M → List (Q × List UInt8) → List (M × R) → List UInt8 →
    List UInt8 → Prop where
  | client {heard : List (Q × List UInt8)} {served : List (M × R)}
      (hheard : Heard lang heard served) :
      Turn f lang none none heard served [] []
  | request {heard : List (Q × List UInt8)} {served : List (M × R)} {q : Q}
      (hheard : Heard lang heard served)
      (hfits : f.Fits (lang.encode q)) :
        Turn f lang (some q) none heard served (f.frame (lang.encode q)) []
  | server {heard : List (Q × List UInt8)} {served : List (M × R)} {q : Q}
      (hheard : Heard lang heard served) :
      Turn f lang (some q) (some (lang.understand (lang.encode q))) heard served [] []
  | answer {heard : List (Q × List UInt8)} {served : List (M × R)} {q : Q}
      {r : R} (hheard : Heard lang heard served)
      (hfits : f.Fits (lang.respond r)) :
      Turn f lang (some q) none heard (served ++ [(lang.understand (lang.encode q), r)])
        [] (f.frame (lang.respond r))

section cases

variable {waiting : Option Q} {handling : Option M} {heard : List (Q × List UInt8)}
  {served : List (M × R)} {up down : List UInt8}

theorem Turn.of_not_waiting (h : Turn f lang none handling heard served up down) :
    handling = none ∧ up = [] ∧ down = [] ∧ Heard lang heard served := by
  cases h with
  | client hheard => exact ⟨rfl, rfl, rfl, hheard⟩

theorem Turn.of_handling {m : M} (h : Turn f lang waiting (some m) heard served up down) :
    ∃ q, waiting = some q ∧ m = lang.understand (lang.encode q) ∧ up = [] ∧
    down = [] ∧ Heard lang heard served := by
  cases h with
  | server hheard => exact ⟨_, rfl, rfl, rfl, rfl, hheard⟩

theorem Heard.length_eq (h : Heard lang heard served) : served.length = heard.length := by
  have hlen := congrArg List.length h
  rw [List.length_map, List.length_map] at hlen
  exact hlen.symm

theorem Turn.served_le (h : Turn f lang waiting handling heard served up down) :
    served.length + handling.toList.length ≤ heard.length + waiting.toList.length := by
  cases h with
  | client hheard => exact Nat.le_of_eq (by rw [hheard.length_eq]; rfl)
  | request hheard _ => exact Nat.add_le_add (Nat.le_of_eq hheard.length_eq) (Nat.zero_le _)
  | server hheard => exact Nat.le_of_eq (by rw [hheard.length_eq]; rfl)
  | answer hheard _ => exact Nat.le_of_eq (by rw [List.length_append, hheard.length_eq]; rfl)

theorem Turn.of_up (h : Turn f lang waiting handling heard served up down) (hup : up ≠ []) :
    ∃ q, waiting = some q ∧ handling = none ∧ f.Fits (lang.encode q) ∧
    up = f.frame (lang.encode q) ∧ down = [] ∧
      Heard lang heard served := by
  cases h with
  | request hheard hfits => exact ⟨_, rfl, rfl, hfits, rfl, rfl, hheard⟩
  | _ => exact absurd rfl hup

theorem Turn.of_down (h : Turn f lang waiting handling heard served up down) (hdown : down ≠ []) :
    ∃ q r served', waiting = some q ∧ handling = none ∧ f.Fits (lang.respond r) ∧ up = [] ∧
      down = f.frame (lang.respond r) ∧ served = served' ++ [(lang.understand (lang.encode q), r)] ∧
      Heard lang heard served' := by
  cases h with
  | answer hheard hfits => exact ⟨_, _, _, rfl, rfl, hfits, rfl, rfl, rfl, hheard⟩
  | _ => exact absurd rfl hdown

theorem Turn.of_waiting {q : Q} (h : Turn f lang (some q) none heard served up down) :
    f.Fits (lang.encode q) ∧ up = f.frame (lang.encode q) ∧ down = [] ∨
    ∃ r, f.Fits (lang.respond r) ∧ down = f.frame (lang.respond r) ∧ up = [] := by
  cases h with
  | request _ hfits => exact Or.inl ⟨hfits, rfl, rfl⟩
  | answer _ hfits => exact Or.inr ⟨_, hfits, rfl, rfl⟩

end cases

/-- The requests come one after the other, and the two sides take turns. -/
structure Inv (f : Framing) (lang : Language Q M R) (requests : List Q) (st : State Q M R) :
    Prop where
  order : st.heard.map (fun e => e.1) ++ st.waiting.toList ++ st.todo = requests
  turn : Turn f lang st.waiting st.handling st.heard st.served st.up.contents st.down.contents

/-- An answer is short enough. -/
def Label.Fits (f : Framing) (lang : Language Q M R) : Label R → Prop
  | .answer r => f.Fits (lang.respond r)
  | _ => True

theorem inv_initial : Inv f lang requests (.initial requests) := ⟨rfl, .client rfl⟩

theorem Inv.ask (h : Inv f lang requests st) (hrequests : ∀ q ∈ requests, f.Fits (lang.encode q))
    (hstep : ask f lang st = some st') : Inv f lang requests st' := by
  obtain ⟨horder, hturn⟩ := h
  unfold Dialogue.ask at hstep
  split at hstep
  · next q todo hwaiting htodo =>
    split at hstep
    · obtain ⟨up, hput, rfl⟩ := Option.map_eq_some_iff.mp hstep
      rw [hwaiting, htodo] at horder
      rw [hwaiting] at hturn
      obtain ⟨hhandling, hup, hdown, hheard⟩ := hturn.of_not_waiting
      have hmem : q ∈ requests := by
        rw [← horder]
        simp
      refine ⟨by simpa using horder, ?_⟩
      dsimp only
      rw [hhandling, hdown, Pipe.contents_put hput hup]
      exact .request hheard (hrequests q hmem)
    · cases hstep
  · cases hstep

theorem Inv.hear (h : Inv f lang requests st) (hstep : hear f st = some st') :
    Inv f lang requests st' := by
  obtain ⟨horder, hturn⟩ := h
  unfold Dialogue.hear at hstep
  split at hstep
  · next q hwaiting =>
    split at hstep
    · obtain ⟨⟨bytes, down⟩, htake, rfl⟩ := Option.map_eq_some_iff.mp hstep
      have hne : st.down.contents ≠ [] := fun hnil => by
        rw [Pipe.take_of_contents hnil] at htake
        cases htake
      obtain ⟨q', r, served', hwaiting', hhandling, hfits, hup, hdown, hserved, hheard⟩ :=
        hturn.of_down hne
      obtain rfl := Option.some.inj (hwaiting.symm.trans hwaiting')
      obtain ⟨rfl, hempty⟩ := Pipe.take_eq_some hfits hdown htake
      rw [hwaiting] at horder
      refine ⟨by simpa using horder, ?_⟩
      dsimp only
      rw [hhandling, hup, hempty, hserved]
      refine .client ?_
      unfold Heard at hheard ⊢
      rw [List.map_append, List.map_append, hheard]
      rfl
    · cases hstep
  · cases hstep

theorem Inv.read (h : Inv f lang requests st) (hstep : read f lang st = some st') :
    Inv f lang requests st' := by
  obtain ⟨horder, hturn⟩ := h
  unfold Dialogue.read at hstep
  split at hstep
  · split at hstep
    · obtain ⟨⟨bytes, up⟩, htake, rfl⟩ := Option.map_eq_some_iff.mp hstep
      have hne : st.up.contents ≠ [] := fun hnil => by
        rw [Pipe.take_of_contents hnil] at htake
        cases htake
      obtain ⟨q, hwaiting, -, hfits, hup, hdown, hheard⟩ := hturn.of_up hne
      obtain ⟨rfl, hempty⟩ := Pipe.take_eq_some hfits hup htake
      refine ⟨horder, ?_⟩
      dsimp only
      rw [hwaiting, hempty, hdown]
      exact .server hheard
    · cases hstep
  · cases hstep

theorem Inv.answer (h : Inv f lang requests st) {r : R} (hfits : f.Fits (lang.respond r))
    (hstep : answer f lang st r = some st') : Inv f lang requests st' := by
  obtain ⟨horder, hturn⟩ := h
  unfold Dialogue.answer at hstep
  split at hstep
  · next m hhandling =>
    split at hstep
    · obtain ⟨down, hput, rfl⟩ := Option.map_eq_some_iff.mp hstep
      rw [hhandling] at hturn
      obtain ⟨q, hwaiting, rfl, hup, hdown, hheard⟩ := hturn.of_handling
      refine ⟨horder, ?_⟩
      dsimp only
      rw [hwaiting, hup, Pipe.contents_put hput hdown]
      exact .answer hheard hfits
    · cases hstep
  · cases hstep

theorem Inv.of_contents (h : Inv f lang requests st) (up down : Pipe) (clientOpen serverOpen : Bool)
    (hup : up.contents = st.up.contents) (hdown : down.contents = st.down.contents) :
    Inv f lang requests { st with up, down, clientOpen, serverOpen } := by
  refine ⟨h.order, ?_⟩
  dsimp only
  rw [hup, hdown]
  exact h.turn

theorem Inv.step (h : Inv f lang requests st) (hrequests : ∀ q ∈ requests, f.Fits (lang.encode q))
    {l : Label R} (hl : l.Fits f lang) (hstep : step f lang st l = some st') :
    Inv f lang requests st' := by
  cases l with
  | ask => exact h.ask hrequests hstep
  | hear => exact h.hear hstep
  | read => exact h.read hstep
  | answer r => exact h.answer hl hstep
  | writeUp k =>
    obtain ⟨-, hstep⟩ := Option.ite_none_right_eq_some.mp hstep
    obtain ⟨up, hwrite, rfl⟩ := Option.map_eq_some_iff.mp hstep
    exact h.of_contents up st.down st.clientOpen st.serverOpen (Pipe.contents_write hwrite).1 rfl
  | writeDown k =>
    obtain ⟨-, hstep⟩ := Option.ite_none_right_eq_some.mp hstep
    obtain ⟨down, hwrite, rfl⟩ := Option.map_eq_some_iff.mp hstep
    exact h.of_contents st.up down st.clientOpen st.serverOpen rfl (Pipe.contents_write hwrite).1
  | arriveUp k =>
    obtain ⟨up, harrive, rfl⟩ := Option.map_eq_some_iff.mp hstep
    exact h.of_contents up st.down st.clientOpen st.serverOpen (Pipe.contents_arrive harrive).1 rfl
  | arriveDown k =>
    obtain ⟨down, harrive, rfl⟩ := Option.map_eq_some_iff.mp hstep
    exact h.of_contents st.up down st.clientOpen st.serverOpen rfl (Pipe.contents_arrive harrive).1
  | stopClient =>
    obtain rfl := Option.some.inj hstep
    exact h.of_contents st.up st.down false st.serverOpen rfl rfl
  | stopServer =>
    obtain rfl := Option.some.inj hstep
    exact h.of_contents st.up st.down st.clientOpen false rfl rfl

theorem inv_of_reachable (hrequests : ∀ q ∈ requests, f.Fits (lang.encode q))
    (h : Reachable (step f lang) (fun _ l => l.Fits f lang) (.initial requests) st) :
    Inv f lang requests st :=
  h.invariant inv_initial fun _ _ _ _ hinv hl hstep => hinv.step hrequests hl hstep

theorem Inv.answers (h : Inv f lang requests st) :
    ∃ unheard, st.served.map (fun e => (e.1, lang.respond e.2)) =
      st.heard.map (fun e => (lang.understand (lang.encode e.1), e.2)) ++ unheard ∧
    unheard.map (fun e => e.1) <+: st.waiting.toList.map fun q =>
      lang.understand (lang.encode q) := by
  have hturn := h.turn
  generalize st.up.contents = up at hturn
  generalize st.down.contents = down at hturn
  obtain ⟨todo, waiting, heard, _, handling, served, _, _, _⟩ := st
  dsimp only at hturn ⊢
  cases hturn with
  | client hheard => exact ⟨[], by rw [hheard, List.append_nil], List.nil_prefix⟩
  | request hheard _ => exact ⟨[], by rw [hheard, List.append_nil], List.nil_prefix⟩
  | server hheard => exact ⟨[], by rw [hheard, List.append_nil], List.nil_prefix⟩
  | answer hheard _ => exact ⟨[_], by rw [List.map_append, ← hheard]; rfl, List.prefix_rfl⟩

/-- **The two sides talk in turn**: what the client has heard are the server's answers to its
requests, in order, and the server is ahead by one answer at most. -/
theorem in_turn (hrequests : ∀ q ∈ requests, f.Fits (lang.encode q))
    (h : Reachable (step f lang) (fun _ l => l.Fits f lang) (.initial requests) st) :
    st.heard.map (fun e => e.1) ++ st.waiting.toList ++ st.todo = requests ∧
    ∃ unheard, st.served.map (fun e => (e.1, lang.respond e.2)) =
        st.heard.map (fun e => (lang.understand (lang.encode e.1), e.2)) ++ unheard ∧
      unheard.map (fun e => e.1) <+: st.waiting.toList.map fun q =>
        lang.understand (lang.encode q) :=
  ⟨(inv_of_reachable hrequests h).order, (inv_of_reachable hrequests h).answers⟩

/-- The steps of the server that read or answer. -/
def Label.serves : Label R → Bool
  | .read | .answer _ => true
  | _ => false

theorem served_of_not_serves {l : Label R} (hl : l.serves = false)
    (hstep : step f lang st l = some st') :
    st'.served = st.served ∧ st'.handling = st.handling := by
  cases l with
  | ask =>
    simp only [step, ask] at hstep
    split at hstep
    · obtain ⟨-, hstep⟩ := Option.ite_none_right_eq_some.mp hstep
      obtain ⟨_, -, rfl⟩ := Option.map_eq_some_iff.mp hstep
      exact ⟨rfl, rfl⟩
    · cases hstep
  | hear =>
    simp only [step, hear] at hstep
    split at hstep
    · obtain ⟨-, hstep⟩ := Option.ite_none_right_eq_some.mp hstep
      obtain ⟨_, -, rfl⟩ := Option.map_eq_some_iff.mp hstep
      exact ⟨rfl, rfl⟩
    · cases hstep
  | writeUp k | writeDown k =>
    obtain ⟨-, hstep⟩ := Option.ite_none_right_eq_some.mp hstep
    obtain ⟨_, -, rfl⟩ := Option.map_eq_some_iff.mp hstep
    exact ⟨rfl, rfl⟩
  | arriveUp k | arriveDown k =>
    obtain ⟨_, -, rfl⟩ := Option.map_eq_some_iff.mp hstep
    exact ⟨rfl, rfl⟩
  | stopClient | stopServer =>
    obtain rfl := Option.some.inj hstep
    exact ⟨rfl, rfl⟩
  | read | answer r => cases hl

theorem read_eq_some (hstep : read f lang st = some st') :
    st.handling = none ∧ st'.served = st.served ∧
    ∃ m, st'.handling = some m := by
  unfold Dialogue.read at hstep
  split at hstep
  · next hhandling =>
    obtain ⟨-, hstep⟩ := Option.ite_none_right_eq_some.mp hstep
    obtain ⟨_, -, rfl⟩ := Option.map_eq_some_iff.mp hstep
    exact ⟨hhandling, rfl, _, rfl⟩
  · cases hstep

theorem answer_eq_some {r : R} (hstep : answer f lang st r = some st') :
    ∃ m, st.handling = some m ∧ st'.handling = none ∧ st'.served = st.served ++ [(m, r)] := by
  unfold Dialogue.answer at hstep
  split at hstep
  · next m hhandling =>
    obtain ⟨-, hstep⟩ := Option.ite_none_right_eq_some.mp hstep
    obtain ⟨_, -, rfl⟩ := Option.map_eq_some_iff.mp hstep
    exact ⟨m, hhandling, rfl, rfl⟩
  · cases hstep

/-! ## Every request gets its answer -/

/-- Nobody gives up. -/
def Label.works : Label R → Bool
  | .stopClient | .stopServer => false
  | _ => true

/-- How much of a request is still to be done. -/
def stage (st : State Q M R) : Nat :=
  match st.waiting, st.handling with
  | none, _ => 0
  | some _, some _ => 2
  | some _, none => if st.served.length = st.heard.length then 3 else 1

/-- What is left to do: the requests, the current one, and the bytes on their way. -/
def remaining (st : State Q M R) : Nat × Nat × Nat :=
  (st.todo.length, stage st, st.up.distance + st.down.distance)

def Less : Nat × Nat × Nat → Nat × Nat × Nat → Prop := Prod.Lex (· < ·) (Prod.Lex (· < ·) (· < ·))

theorem Less.wf : WellFounded Less :=
  (Prod.lex Nat.lt_wfRel (Prod.lex Nat.lt_wfRel Nat.lt_wfRel)).wf

theorem less_ask (hstep : ask f lang st = some st') : Less (remaining st') (remaining st) := by
  unfold ask at hstep
  split at hstep
  · next q todo hwaiting htodo =>
    split at hstep
    · obtain ⟨up, hput, rfl⟩ := Option.map_eq_some_iff.mp hstep
      refine .left _ _ ?_
      rw [htodo]
      exact Nat.lt_succ_self _
    · cases hstep
  · cases hstep

theorem less_hear (hstep : hear f st = some st') : Less (remaining st') (remaining st) := by
  unfold hear at hstep
  split at hstep
  · next q hwaiting =>
    split at hstep
    · obtain ⟨out, htake, rfl⟩ := Option.map_eq_some_iff.mp hstep
      refine .right _ (.left _ _ ?_)
      show 0 < stage st
      unfold stage
      rw [hwaiting]
      cases st.handling with
      | some m => exact Nat.two_pos
      | none =>
        dsimp only
        split <;> omega
    · cases hstep
  · cases hstep

theorem Inv.less_read (h : Inv f lang requests st) (hstep : Dialogue.read f lang st = some st') :
    Less (remaining st') (remaining st) := by
  unfold Dialogue.read at hstep
  split at hstep
  · next hhandling =>
    split at hstep
    · obtain ⟨⟨bytes, up⟩, htake, rfl⟩ := Option.map_eq_some_iff.mp hstep
      have hne : st.up.contents ≠ [] := fun hnil => by
        rw [Pipe.take_of_contents hnil] at htake
        cases htake
      obtain ⟨q, hwaiting, -, -, -, -, hheard⟩ := h.turn.of_up hne
      refine .right _ (.left _ _ ?_)
      unfold stage
      dsimp only
      rw [hwaiting, hhandling]
      dsimp only
      rw [if_pos hheard.length_eq]
      omega
    · cases hstep
  · cases hstep

theorem Inv.less_answer (h : Inv f lang requests st) {r : R}
    (hstep : Dialogue.answer f lang st r = some st') :
    Less (remaining st') (remaining st) := by
  unfold Dialogue.answer at hstep
  split at hstep
  · next m hhandling =>
    split at hstep
    · obtain ⟨down, hput, rfl⟩ := Option.map_eq_some_iff.mp hstep
      have hturn := h.turn
      rw [hhandling] at hturn
      obtain ⟨q, hwaiting, -, -, -, hheard⟩ := hturn.of_handling
      have hlen : ¬ st.served.length + 1 = st.heard.length := by
        rw [hheard.length_eq]
        omega
      refine .right _ (.left _ _ ?_)
      unfold stage
      dsimp only
      rw [hwaiting, hhandling]
      dsimp only
      rw [List.length_append, List.length_singleton, if_neg hlen]
      omega
    · cases hstep
  · cases hstep

theorem less_of_distance {up down : Pipe}
    (h : up.distance + down.distance < st.up.distance + st.down.distance) :
    Less (remaining { st with up, down }) (remaining st) := .right _ (.right _ h)

theorem Inv.less (h : Inv f lang requests st) {l : Label R} (hl : l.works = true)
    (hstep : Dialogue.step f lang st l = some st') :
    Less (remaining st') (remaining st) := by
  cases l with
  | ask => exact less_ask hstep
  | hear => exact less_hear hstep
  | read => exact h.less_read hstep
  | answer r => exact h.less_answer hstep
  | writeUp k =>
    obtain ⟨-, hstep⟩ := Option.ite_none_right_eq_some.mp hstep
    obtain ⟨up, hwrite, rfl⟩ := Option.map_eq_some_iff.mp hstep
    exact less_of_distance (Nat.add_lt_add_right (Pipe.contents_write hwrite).2 _)
  | writeDown k =>
    obtain ⟨-, hstep⟩ := Option.ite_none_right_eq_some.mp hstep
    obtain ⟨down, hwrite, rfl⟩ := Option.map_eq_some_iff.mp hstep
    exact less_of_distance (Nat.add_lt_add_left (Pipe.contents_write hwrite).2 _)
  | arriveUp k =>
    obtain ⟨up, harrive, rfl⟩ := Option.map_eq_some_iff.mp hstep
    exact less_of_distance (Nat.add_lt_add_right (Pipe.contents_arrive harrive).2 _)
  | arriveDown k =>
    obtain ⟨down, harrive, rfl⟩ := Option.map_eq_some_iff.mp hstep
    exact less_of_distance (Nat.add_lt_add_left (Pipe.contents_arrive harrive).2 _)
  | stopClient | stopServer => cases hl

theorem Inv.finished (h : Inv f lang requests st) (hclient : st.clientOpen = true)
    (hserver : st.serverOpen = true) {r : R} (hr : f.Fits (lang.respond r))
    (hstill : ∀ l : Label R, l.works = true → l.Fits f lang → Dialogue.step f lang st l = none) :
    st.heard.map (fun e => e.1) = requests := by
  have hmap : ∀ {α β : Type} {o : Option α} {g : α → β}, o.map g = none → o = none :=
    fun h => Option.map_eq_none_iff.mp h
  have hwriteUp : ∀ k, st.up.write k = none := fun k => by
    have hnone := hstill (.writeUp k) rfl trivial
    exact hmap ((if_pos hclient).symm.trans hnone)
  have hwriteDown : ∀ k, st.down.write k = none := fun k => by
    have hnone := hstill (.writeDown k) rfl trivial
    exact hmap ((if_pos hserver).symm.trans hnone)
  have harriveUp : ∀ k, st.up.arrive k = none := fun k => hmap (hstill (.arriveUp k) rfl trivial)
  have harriveDown : ∀ k, st.down.arrive k = none :=
    fun k => hmap (hstill (.arriveDown k) rfl trivial)
  have hturn := h.turn
  cases hhandling : st.handling with
  | some m =>
    -- the server has an answer to give
    rw [hhandling] at hturn
    obtain ⟨q, -, -, -, hdown, -⟩ := hturn.of_handling
    have hnone := hstill (.answer r) rfl hr
    have hput := Pipe.unwritten_of_contents hdown
    simp [Dialogue.step, Dialogue.answer, hhandling, hserver, Pipe.put, hput] at hnone
  | none =>
    rw [hhandling] at hturn
    cases hwaiting : st.waiting with
    | some q =>
      rw [hwaiting] at hturn
      rcases hturn.of_waiting with ⟨hfits, hup, hdown⟩ | ⟨r, hfits, hdown, hup⟩
      · -- the request can be read
        obtain ⟨-, up, htake⟩ := Pipe.take_of_still hfits hup hwriteUp harriveUp
        have hnone := hstill .read rfl trivial
        simp [Dialogue.step, Dialogue.read, hhandling, hserver,
          Pipe.unwritten_of_contents hdown, htake] at hnone
      · -- the answer can be heard
        obtain ⟨-, down, htake⟩ := Pipe.take_of_still hfits hdown hwriteDown harriveDown
        have hnone := hstill .hear rfl trivial
        simp [Dialogue.step, Dialogue.hear, hwaiting, hclient,
          Pipe.unwritten_of_contents hup, htake] at hnone
    | none =>
      rw [hwaiting] at hturn
      obtain ⟨-, hup, -, -⟩ := hturn.of_not_waiting
      have horder := h.order
      cases htodo : st.todo with
      | nil =>
        rw [hwaiting, htodo] at horder
        simpa using horder
      | cons q todo =>
        -- the next request can be written
        have hput := Pipe.unwritten_of_contents hup
        have hnone := hstill .ask rfl trivial
        simp [Dialogue.step, Dialogue.ask, hwaiting, htodo, hclient, Pipe.put, hput] at hnone

theorem open_of_works {l : Label R} (hl : l.works = true) (hstep : step f lang st l = some st') :
    st'.clientOpen = st.clientOpen ∧ st'.serverOpen = st.serverOpen := by
  cases l with
  | ask =>
    simp only [step, ask] at hstep
    split at hstep
    · obtain ⟨-, hstep⟩ := Option.ite_none_right_eq_some.mp hstep
      obtain ⟨_, -, rfl⟩ := Option.map_eq_some_iff.mp hstep
      exact ⟨rfl, rfl⟩
    · cases hstep
  | hear =>
    simp only [step, hear] at hstep
    split at hstep
    · obtain ⟨-, hstep⟩ := Option.ite_none_right_eq_some.mp hstep
      obtain ⟨_, -, rfl⟩ := Option.map_eq_some_iff.mp hstep
      exact ⟨rfl, rfl⟩
    · cases hstep
  | read =>
    simp only [step, read] at hstep
    split at hstep
    · obtain ⟨-, hstep⟩ := Option.ite_none_right_eq_some.mp hstep
      obtain ⟨_, -, rfl⟩ := Option.map_eq_some_iff.mp hstep
      exact ⟨rfl, rfl⟩
    · cases hstep
  | answer r =>
    simp only [step, answer] at hstep
    split at hstep
    · obtain ⟨-, hstep⟩ := Option.ite_none_right_eq_some.mp hstep
      obtain ⟨_, -, rfl⟩ := Option.map_eq_some_iff.mp hstep
      exact ⟨rfl, rfl⟩
    · cases hstep
  | writeUp k | writeDown k =>
    obtain ⟨-, hstep⟩ := Option.ite_none_right_eq_some.mp hstep
    obtain ⟨_, -, rfl⟩ := Option.map_eq_some_iff.mp hstep
    exact ⟨rfl, rfl⟩
  | arriveUp k | arriveDown k =>
    obtain ⟨_, -, rfl⟩ := Option.map_eq_some_iff.mp hstep
    exact ⟨rfl, rfl⟩
  | stopClient | stopServer => cases hl

/-- **Every request gets its answer**: as long as nobody gives up, the two sides come to an end, and
then the client has heard an answer to every request. -/
theorem all_answered (hrequests : ∀ q ∈ requests, f.Fits (lang.encode q))
    (h : Reachable (step f lang) (fun _ l => l.works = true ∧ l.Fits f lang) (.initial requests) st)
    {r : R} (hr : f.Fits (lang.respond r)) :
    Halts (step f lang) (fun l => l.works = true ∧ l.Fits f lang) st ∧
    ((∀ l : Label R, l.works = true → l.Fits f lang → step f lang st l = none) →
      st.heard.map (fun e => e.1) = requests) := by
  have hinv := inv_of_reachable hrequests (h.weaken fun _ _ hl => hl.2)
  have hopen : st.clientOpen = true ∧ st.serverOpen = true := by
    refine h.invariant (P := fun st => st.clientOpen = true ∧ st.serverOpen = true) ⟨rfl, rfl⟩ ?_
    intro st l st' _ hopen hl hstep
    obtain ⟨hclient, hserver⟩ := open_of_works hl.1 hstep
    exact ⟨hclient.trans hopen.1, hserver.trans hopen.2⟩
  refine ⟨?_, hinv.finished hopen.1 hopen.2 hr⟩
  refine Transition.halts_of_descent Less.wf remaining (P := Inv f lang requests) ?_ hinv
  exact fun st l st' hinv hl hstep => Or.inr ⟨hinv.step hrequests hl.2 hstep, hinv.less hl.1 hstep⟩

end turns

end Dialogue
