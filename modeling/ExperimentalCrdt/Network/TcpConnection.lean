import ExperimentalCrdt.Lib.Transition
import ExperimentalCrdt.LogicalClocks.DotVersionVector
import ExperimentalCrdt.Proto.Envelope
import Mathlib.Logic.Function.Basic

/-!
# A connection between two peers

`network/tcp_connection.rs`: `run_connection` on the two sides of one connection. The initiator
sends its handshake first, the acceptor answers with its own, and each enters the other into its
registry. From then on a reader forwards what arrives to the application, and a writer takes
envelopes from the channel that the registry's handle fills.

A step is one thing that can happen: the socket takes some bytes of the frame that is being written,
some bytes arrive, a task goes on, an envelope is handed over, the handle is dropped, the task is
aborted, the network fails. A read waits until it has all its bytes, so it is one step. What an
envelope was handed over and what was read is on record (`sent`, `received`); no step reads it.
-/

namespace ExperimentalCrdt

namespace TcpConnection

open Protocol Proto

def CHANNEL_BUF : Nat := 256

inductive Side where
  | initiator
  | acceptor
deriving DecidableEq, Repr

def Side.other : Side → Side
  | .initiator => .acceptor
  | .acceptor => .initiator

@[simp] theorem Side.other_other (s : Side) : s.other.other = s := by cases s <;> rfl

theorem Side.other_ne (s : Side) : s.other ≠ s := by cases s <;> decide

theorem Side.eq_or_eq_other (s t : Side) : t = s ∨ t = s.other := by cases s <;> cases t <;> decide

/-- The handshake of a peer, in version 1. -/
def handshakeEnvelope (nodeId nodeName : NodeId) (gcReplica : Bool) : Proto.Envelope :=
  ⟨some (.handshake { nodeId, nodeName, gcReplica, version := 1 })⟩

/-- A peer whose handshake fits into a frame. -/
structure Identity where
  nodeId : NodeId
  nodeName : NodeId
  gcReplica : Bool
  short : (handshakeEnvelope nodeId nodeName gcReplica).encodeToVec.length ≤ MAX_FRAME_LEN.toNat

namespace Identity

variable (self : Identity)

theorem handshake_valid : (handshakeEnvelope self.nodeId self.nodeName self.gcReplica).Fits ∧
    (handshakeEnvelope self.nodeId self.nodeName self.gcReplica).encodeToVec.length < 2 ^ 64 := by
  refine ⟨fun p hp => ?_, ?_⟩
  · obtain rfl := Option.some.inj hp
    show 1 < 2 ^ 32
    omega
  · have hshort := self.short
    have hmax : MAX_FRAME_LEN.toNat = 16777216 := by decide
    omega

def handshake : ValidEnvelope :=
  ⟨handshakeEnvelope self.nodeId self.nodeName self.gcReplica, self.handshake_valid⟩

end Identity

/-- Where `run_connection` is: in one of the steps of the handshake, in the reader's loop, or
done. -/
inductive Phase where
  | sendHandshake
  | receiveHandshake
  | replyHandshake (remoteNodeId : NodeId) (remoteGcReplica : Bool)
  | running (remoteNodeId : NodeId) (remoteGcReplica : Bool)
  | ended
deriving DecidableEq

structure Endpoint where
  identity : Identity
  phase : Phase
  /-- what the socket has not taken of the frame that is being written -/
  outgoing : List UInt8
  /-- the channel of the writer -/
  rx : List ValidEnvelope
  /-- the registry has a handle -/
  handle : Bool
  /-- the write half is in use -/
  writing : Bool
  /-- the length that the reader has read already -/
  header : Option UInt32
  /-- what the application has been sent -/
  forwarded : List ValidEnvelope
  sent : List ValidEnvelope
  received : List ValidEnvelope

/-- What one side writes on its way to the other. -/
structure Pipe where
  flight : List UInt8
  arrived : List UInt8

structure Connection where
  ends : Side → Endpoint
  pipes : Side → Pipe
  broken : Bool

inductive Label where
  | write (s : Side) (k : Nat)
  | arrive (s : Side) (k : Nat)
  | flushed (s : Side)
  | read (s : Side)
  | take (s : Side)
  | offer (s : Side) (envelope : ValidEnvelope)
  | dropHandle (s : Side)
  | writerDone (s : Side)
  | abort (s : Side)
  | reset
  | readError (s : Side)
  | writeError (s : Side)

/-- What a step of a connection means to the server: a peer is entered into the registry, or an
envelope is sent to the application. -/
inductive Event where
  | registered (s : Side) (remoteNodeId : NodeId) (remoteGcReplica : Bool)
  | forwarded (s : Side) (envelope : ValidEnvelope)

def frame (envelope : ValidEnvelope) : List UInt8 := writeEnvelope Envelope.codec envelope

/-- The length of the encoding. -/
def size (envelope : ValidEnvelope) : Nat := envelope.1.encodeToVec.length

namespace Endpoint

variable (self : Endpoint)

/-- What was handed over to be sent, after the handshake. -/
def accepted : List ValidEnvelope := self.sent.drop 1

/-- Both halves are dropped. -/
def close : Endpoint := { self with phase := .ended, writing := false, outgoing := [], rx := [] }

/-- The socket is closed. -/
def closed : Bool := decide (self.phase = .ended) && !self.writing

/-- The id and the flag of a handshake in version 1. -/
def receiveHandshake (envelope : ValidEnvelope) : Option (NodeId × Bool) :=
  match envelope.1.payload with
  | some (.handshake hs) => if hs.version ≠ 1 then none else some (hs.nodeId, hs.gcReplica)
  | _ => none

/-- The registry gets a handle, and the writer's task is started. -/
def register (remoteNodeId : NodeId) (remoteGcReplica : Bool) : Endpoint :=
  { self with phase := .running remoteNodeId remoteGcReplica, handle := true }

/-- `write_envelope` of the own handshake. -/
def writeHandshake : Endpoint :=
  { self with
    outgoing := frame self.identity.handshake, sent := self.sent ++ [self.identity.handshake] }

def dispatch (s : Side) (envelope : ValidEnvelope) : Endpoint × List Event :=
  match envelope.1.payload with
  | some _ => ({ self with forwarded := self.forwarded ++ [envelope] }, [.forwarded s envelope])
  | none => (self, [])

/-- An envelope was read. -/
def receive (s : Side) (envelope : ValidEnvelope) : Endpoint × List Event :=
  let read := { self with header := none, received := self.received ++ [envelope] }
  match self.phase with
  | .receiveHandshake =>
    match receiveHandshake envelope with
    | none => (read.close, [])
    | some (remoteNodeId, remoteGcReplica) =>
      match s with
      | .initiator =>
        (read.register remoteNodeId remoteGcReplica, [.registered s remoteNodeId remoteGcReplica])
      | .acceptor =>
        ({ read with phase := .replyHandshake remoteNodeId remoteGcReplica }.writeHandshake, [])
  | _ => read.dispatch s envelope

/-- Whether a read is going on. -/
def reads : Bool :=
  match self.phase with
  | .receiveHandshake | .running _ _ => true
  | _ => false

/-- Whether the writer's task was started. -/
def started : Bool :=
  match self.phase with
  | .running _ _ | .ended => true
  | _ => false

/-- The handshake is written. -/
def flushed (s : Side) : Option (Endpoint × List Event) :=
  if self.outgoing = [] then
    match self.phase with
    | .sendHandshake => some ({ self with phase := .receiveHandshake }, [])
    | .replyHandshake remoteNodeId remoteGcReplica =>
      some (self.register remoteNodeId remoteGcReplica,
        [.registered s remoteNodeId remoteGcReplica])
    | _ => none
  else none

/-- `try_send` through the registry's handle. -/
def trySend (envelope : ValidEnvelope) : Option Endpoint :=
  if self.handle ∧ self.writing ∧ self.rx.length < CHANNEL_BUF then
    some { self with rx := self.rx ++ [envelope], sent := self.sent ++ [envelope] }
  else none

/-- `writer_loop` ends when the channel is empty and the registry's handle is gone. -/
def writerDone : Option Endpoint :=
  if self.started ∧ self.writing ∧ ¬ self.handle ∧ self.rx = [] ∧ self.outgoing = [] then
    some { self with writing := false }
  else none

/-- A write fails: of the handshake, or in the writer's task. -/
def writeError : Option Endpoint :=
  if ¬ self.writing ∨ self.phase = .receiveHandshake then none
  else if self.started then some { self with writing := false, outgoing := [], rx := [] }
  else some self.close

/-- The task of `run_connection` is aborted. The writer has a task of its own, once it is
started. -/
def abort : Option Endpoint :=
  match self.phase with
  | .ended => none
  | .running _ _ => some { self with phase := .ended }
  | _ => some self.close

end Endpoint

namespace Connection

def setEnd (c : Connection) (s : Side) (e : Endpoint) : Connection :=
  { c with ends := Function.update c.ends s e }

def setPipe (c : Connection) (s : Side) (p : Pipe) : Connection :=
  { c with pipes := Function.update c.pipes s p }

section update

variable (c : Connection) (s : Side) (e : Endpoint) (p : Pipe)

@[simp] theorem setEnd_self : (c.setEnd s e).ends s = e := Function.update_self _ _ _

@[simp] theorem setEnd_other : (c.setEnd s e).ends s.other = c.ends s.other :=
  Function.update_of_ne s.other_ne _ _

@[simp] theorem setEnd_pipes : (c.setEnd s e).pipes = c.pipes := rfl

@[simp] theorem setPipe_self : (c.setPipe s p).pipes s = p := Function.update_self _ _ _

@[simp] theorem setPipe_other : (c.setPipe s.other p).pipes s = c.pipes s :=
  Function.update_of_ne (Ne.symm s.other_ne) _ _

@[simp] theorem setPipe_other' : (c.setPipe s p).pipes s.other = c.pipes s.other :=
  Function.update_of_ne s.other_ne _ _

@[simp] theorem setPipe_ends : (c.setPipe s p).ends = c.ends := rfl

end update

/-- What comes after the bytes that have arrived, if the other side has closed its socket. -/
def atEnd (c : Connection) (s : Side) : Bool :=
  (c.ends s.other).closed && (c.pipes s.other).flight.isEmpty

/-- The reader of side `s` goes on; without enough bytes it waits. -/
def read (c : Connection) (s : Side) : Option (Connection × List Event) :=
  let e := c.ends s
  let p := c.pipes s.other
  if ¬ e.reads then none
  else
    match e.header with
    | none =>
      match readExact 4 p.arrived with
      | some (lenBuf, rest) =>
        some ((c.setEnd s { e with header := some (fromBeBytes lenBuf) }).setPipe s.other
          { p with arrived := rest }, [])
      | none => if c.atEnd s then some (c.setEnd s e.close, []) else none
    | some len =>
      match readPayload Envelope.codec len p.arrived with
      | .ok (some (envelope, rest)) =>
        let received := e.receive s envelope
        some ((c.setEnd s received.1).setPipe s.other { p with arrived := rest }, received.2)
      | .error .unexpectedEof => if c.atEnd s then some (c.setEnd s e.close, []) else none
      | .error _ => some (c.setEnd s e.close, [])
      | .ok none => none

def advance (c : Connection) : Label → Option (Connection × List Event)
  | .write s k =>
    let e := c.ends s
    if e.writing ∧ ¬ c.broken ∧ 0 < k ∧ k ≤ e.outgoing.length then
      some ((c.setEnd s { e with outgoing := e.outgoing.drop k }).setPipe s
        { c.pipes s with flight := (c.pipes s).flight ++ e.outgoing.take k }, [])
    else none
  | .arrive s k =>
    let p := c.pipes s
    if ¬ c.broken ∧ 0 < k ∧ k ≤ p.flight.length then
      some (c.setPipe s ⟨p.flight.drop k, p.arrived ++ p.flight.take k⟩, [])
    else none
  | .flushed s => ((c.ends s).flushed s).map fun out => (c.setEnd s out.1, out.2)
  | .read s => c.read s
  | .take s =>
    let e := c.ends s
    match e.rx with
    | envelope :: rest =>
      if e.writing ∧ e.outgoing = [] then some
        (c.setEnd s { e with rx := rest, outgoing := frame envelope }, []) else none
    | [] => none
  | .offer s envelope => ((c.ends s).trySend envelope).map fun e => (c.setEnd s e, [])
  | .dropHandle s =>
    if (c.ends s).handle then some (c.setEnd s { c.ends s with handle := false }, []) else none
  | .writerDone s => (c.ends s).writerDone.map fun e => (c.setEnd s e, [])
  | .abort s => (c.ends s).abort.map fun e => (c.setEnd s e, [])
  | .reset => if c.broken then none else some ({ c with broken := true }, [])
  | .readError s =>
    if c.broken ∧ (c.ends s).reads then some (c.setEnd s (c.ends s).close, []) else none
  | .writeError s =>
    if c.broken then (c.ends s).writeError.map fun e => (c.setEnd s e, []) else none

def step (c : Connection) (l : Label) : Option Connection := (c.advance l).map Prod.fst

/-- A side before its task has done anything. -/
def endpoint (identity : Identity) : Side → Endpoint
  | .initiator =>
    { identity, phase := .sendHandshake, outgoing := frame identity.handshake,
      rx := [], handle := false, writing := true
      header := none, forwarded := [], sent := [identity.handshake], received := [] }
  | .acceptor =>
    { identity, phase := .receiveHandshake, outgoing := [], rx := [], handle := false,
      writing := true
      header := none, forwarded := [], sent := [], received := [] }

/-- A connection that one peer has opened to another. -/
def opened (peer : Side → Identity) : Connection where
  ends s := endpoint (peer s) s
  pipes _ := ⟨[], []⟩
  broken := false

end Connection

end TcpConnection

end ExperimentalCrdt
