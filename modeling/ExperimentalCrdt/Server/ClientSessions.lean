import ExperimentalCrdt.Cluster.System
import ExperimentalCrdt.Lib.Service
import ExperimentalCrdt.Proto.Envelope
import ExperimentalCrdt.Server.ClientRequests

/-!
# Clients and the engine

`server/client_requests_handler.rs` with the loop of `run` in `engine/crdt_engine.rs`: each
connection of a client has a task that takes one command after the other, turns it into requests to
the engine, and answers. The requests of all clients, of the peers and of the timers go through one
queue of 1024 places, and the engine works them off one by one.

An operation is answered with ok as soon as it is in the queue. Nevertheless whoever asks for the
state after somebody was told ok gets a state in which that operation has been applied
(`operation_is_seen`). A `RemoveRandom` consists of two requests, and others may come in between;
what it removes was there when the engine named it, and a name that looks like an error is not
removed (`removeRandom_names_present`).
-/

namespace ExperimentalCrdt

open Service (Script Machine State Executes Explains)
open Transition (Reachable replay reachable_of_replay reachable_of_isSome)

/-- The requests that do not change the engine, with an answer for a client. -/
inductive Query where
  | getRandomElement
  | printState
  | printInternals
  | printMatrix
deriving DecidableEq, Repr

inductive EngineRequest where
  | replication (req : CrdtEngineRequest String)
  | query (q : Query)

/-- `print_state`: the elements, sorted by how they are displayed. -/
def OrSet.printState {E : Type} [DecidableEq E] (debug : E → String) (self : OrSet E)
    (order : List (Sigma fun _ : E => HashSet Dot)) : String :=
  ", ".intercalate (((self.elementsIn order).insertionSort fun a b => debug a ≤ debug b).map debug)

/-- What a step of the engine depends on: its peers, a random choice, the bucket, the order in which
the hash map of the adds is gone through, and the text of the two displays that are not modelled. -/
structure Surroundings where
  registry : PeerRegistry
  choice : Option NodeId
  ok : Bool
  storage : Storage String
  order : List (Sigma fun _ : String => HashSet Dot)
  text : String

namespace CrdtEngine

variable {id : NodeId} (debug : String → String) (x : Surroundings) (self : CrdtEngine String id)

/-- The answer to a query. -/
def answer : Query → String
  | .getRandomElement => self.randomElement x.order
  | .printState => self.replica.crdt.printState debug x.order
  | .printInternals | .printMatrix => x.text

/-- The order of a hash map is compared entry by entry. -/
local instance (priority := high) : DecidableEq (HashSet Dot) := fun m m' =>
  decidable_of_iff (m.entries = m'.entries) AList.ext_iff.symm

/-- One round of the loop in `run`, which waits while a call of the engine is not over. -/
def serve : EngineRequest → Option (CrdtEngine String id × String)
  | .replication req =>
    match self.task with
    | .idle => some ((self.handle x.registry x.choice x.storage.readEpochMetadata req).1, "")
    | _ => none
  | .query q =>
    match self.task with
    | .idle =>
      if x.order.Perm self.replica.crdt.adds.entries
        then some (self, self.answer debug x q) else none
    | _ => none

/-- A call of the engine goes on with the answer of the storage. -/
def goOn : Option (CrdtEngine String id) :=
  (Server.resume ⟨self, ∅, .running⟩ x.ok x.storage).map fun out => out.1.engine

end CrdtEngine

namespace ClientSessions

/-- What a client has sent: a message, or something that is none. -/
abbrev ClientMessage := Except String (Option Proto.Command)

/-- A client operation is put into the queue. -/
def sendEngineRequest (op : OrSetOp String) : Script EngineRequest String String :=
  .cast (.replication (.clientOperation op)) (.reply "ok")

def sendEngineRequestAndWaitResponse (q : Query) : Script EngineRequest String String :=
  .call (.query q) .reply

/-- What the task of a client's connection does with a message. -/
def script : ClientMessage → Script EngineRequest String String
  | .ok (some (.add value)) => sendEngineRequest (.add value)
  | .ok (some (.remove value)) => sendEngineRequest (.remove value)
  | .ok (some (.removeRandom _)) =>
    .call (.query .getRandomElement) fun randomElement =>
      if startsWith randomElement "error:" then .reply randomElement
        else sendEngineRequest (.remove randomElement)
  | .ok (some (.printState _)) => sendEngineRequestAndWaitResponse .printState
  | .ok (some (.printInternals _)) => sendEngineRequestAndWaitResponse .printInternals
  | .ok (some (.printMatrix _)) => sendEngineRequestAndWaitResponse .printMatrix
  | .ok none => .reply "error: empty command"
  | .error e => .reply ("error: " ++ e)

variable (debug : String → String) (id : NodeId)

/-- The engine behind its queue. -/
def machine :
    Machine (CrdtEngine String id) Surroundings EngineRequest String ClientMessage String where
  serve := CrdtEngine.serve debug
  inner := CrdtEngine.goOn
  script := script
  capacity := 1024

/-- The sessions of the clients, by whatever tells connections apart. -/
abbrev Sessions (I : Type) :=
  State I (CrdtEngine String id) EngineRequest String ClientMessage String

/-- `op` is the operation of a command. -/
def operation : ClientMessage → Option (OrSetOp String)
  | .ok (some (.add value)) => some (.add value)
  | .ok (some (.remove value)) => some (.remove value)
  | _ => none

section results

variable {debug : String → String} {id : NodeId} {log : List EngineRequest} {answers : List String}
  {start stop : Nat} {sent : List Nat} {response : String}

theorem explains_operation {message : ClientMessage} {op : OrSetOp String}
    (hop : operation message = some op)
    (h : Explains log answers (script message) start stop sent response) : response = "ok" ∧
      ∃ position, position < stop ∧ sent = [position] ∧
        log[position]? = some (.replication (.clientOperation op)) := by
  have hscript : script message = sendEngineRequest op := by
    unfold operation at hop
    split at hop
    · obtain rfl := Option.some.inj hop
      rfl
    · obtain rfl := Option.some.inj hop
      rfl
    · cases hop
  rw [hscript] at h
  cases h with
  | cast _ hlog hnext =>
    have hle := hnext.start_le_stop
    cases hnext with
    | reply _ => exact ⟨rfl, _, hle, rfl, hlog⟩

theorem explains_query {q : Query}
    (h : Explains log answers (sendEngineRequestAndWaitResponse q) start stop sent response) :
    ∃ position, start ≤ position ∧ log[position]? = some (.query q) ∧
    answers[position]? = some response := by
  cases h with
  | call hle hlog hanswer hnext =>
    cases hnext with
    | reply _ => exact ⟨_, hle, hlog, hanswer⟩

theorem answer_of_query {engine server : CrdtEngine String id}
    (h : Executes (machine debug id) engine log answers server) {position : Nat} {q : Query}
    {a : String} (hlog : log[position]? = some (.query q)) (ha : answers[position]? = some a) :
    ∃ (engine' : CrdtEngine String id) (x : Surroundings),
      Executes (machine debug id) engine (log.take position) (answers.take position) engine' ∧
      x.order.Perm engine'.replica.crdt.adds.entries ∧ a = engine'.answer debug x q := by
  obtain ⟨engine', x, after, hexecutes, hserve⟩ := h.served hlog ha
  refine ⟨engine', x, hexecutes, ?_⟩
  change CrdtEngine.serve debug x engine' (.query q) = _ at hserve
  unfold CrdtEngine.serve at hserve
  dsimp only at hserve
  split at hserve
  · split at hserve
    · next horder =>
      obtain ⟨-, rfl⟩ := Prod.mk.inj (Option.some.inj hserve)
      exact ⟨horder, rfl⟩
    · cases hserve
  · cases hserve

theorem completed_operation {I : Type} [DecidableEq I] {engine : CrdtEngine String id}
    {st : Sessions id I}
    (h : Reachable (Service.step (machine debug id)) (fun _ _ => True) (.initial engine) st) {i : I}
    {d : Service.Completed ClientMessage String} {op : OrSetOp String} (hd : d ∈ st.completed i)
    (hop : operation d.command = some op) :
    d.response = "ok" ∧ ∃ position, position < d.stop ∧ d.sent = [position] ∧
      st.log[position]? = some (.replication (.clientOperation op)) :=
  explains_operation hop ((Service.linearizable h .start).2.1 i d hd)

/-- Who asks for the state gets that of an engine that has worked off all that was in the queue
before. -/
theorem operation_is_seen {I : Type} [DecidableEq I] {engine : CrdtEngine String id}
    {st : Sessions id I}
    (h : Reachable (Service.step (machine debug id)) (fun _ _ => True) (.initial engine) st) {j : I}
    {d : Service.Completed ClientMessage String} {value : Bool} (hd : d ∈ st.completed j)
    (hprint : d.command = .ok (some (.printState value))) :
    ∃ requests answers engine' order, Executes (machine debug id) engine requests answers engine' ∧
      requests <+: st.log ∧ d.start ≤ requests.length ∧
      order.Perm engine'.replica.crdt.adds.entries ∧
      d.response = engine'.replica.crdt.printState debug order := by
  obtain ⟨hexecutes, hexplains, -⟩ := Service.linearizable h .start
  have hquery := hexplains j d hd
  rw [hprint] at hquery
  obtain ⟨position, hposition, hlog, hanswer⟩ := explains_query hquery
  have hlt := (List.getElem?_eq_some_iff.mp hanswer).1
  have htaken : (st.log.take st.answers.length)[position]? = some (.query .printState) := by
    rw [List.getElem?_take_of_lt hlt]
    exact hlog
  obtain ⟨engine', x, hexecutes', horder, hresponse⟩ := answer_of_query hexecutes htaken hanswer
  refine ⟨_, _, engine', x.order, hexecutes', ?_, ?_, horder, hresponse⟩
  · exact (List.take_prefix _ _).trans (List.take_prefix _ _)
  · have hlog := (List.getElem?_eq_some_iff.mp hlog).1
    rw [List.length_take, List.length_take]
    omega

/-- **`RemoveRandom` names what is there**: the engine names an element that it contains, or says
that there is none. If the name looks like an error, it is the response and the command asks for
nothing else; any other is removed by the one further request of the same command. -/
theorem removeRandom_names_present {I : Type} [DecidableEq I] (debug : String → String)
    (id : NodeId) (engine : CrdtEngine String id) (st : Sessions id I)
    (h : Reachable (Service.step (machine debug id)) (fun _ _ => True) (.initial engine) st) (i : I)
    (d : Service.Completed ClientMessage String) (value : Bool) (hd : d ∈ st.completed i)
    (hcommand : d.command = .ok (some (.removeRandom value))) :
    ∃ requests answers engine' e, Executes (machine debug id) engine requests answers engine' ∧
      d.start ≤ requests.length ∧ requests <+: st.log ∧
      st.log[requests.length]? = some (.query .getRandomElement) ∧
      (engine'.replica.crdt.contains e = true ∨
        e = "error: empty crdt" ∧ ∀ x, engine'.replica.crdt.contains x = false) ∧
      (startsWith e "error:" = true ∧ d.response = e ∧ d.sent = [requests.length] ∨
        startsWith e "error:" = false ∧ d.response = "ok" ∧ ∃ position, requests.length < position ∧
          position < d.stop ∧ d.sent = [requests.length, position] ∧
          st.log[position]? = some (.replication (.clientOperation (.remove e)))) := by
  obtain ⟨hexecutes, hexplains, -⟩ := Service.linearizable h .start
  have hscript := hexplains i d hd
  obtain ⟨command, response, start, stop, sent⟩ := d
  obtain rfl : command = _ := hcommand
  cases hscript with
  | @call _ _ position _ _ _ _ e hle hlog hanswer hnext =>
    have hlt := (List.getElem?_eq_some_iff.mp hanswer).1
    have htaken : (st.log.take st.answers.length)[position]? = some (.query .getRandomElement) := by
      rw [List.getElem?_take_of_lt hlt]
      exact hlog
    obtain ⟨engine', x, hexecutes', horder, rfl⟩ := answer_of_query hexecutes htaken hanswer
    have hlength : ((st.log.take st.answers.length).take position).length = position := by
      rw [← hexecutes.length_eq] at hlt
      exact List.length_take_of_le (Nat.le_of_lt hlt)
    refine ⟨_, _, engine', engine'.answer debug x .getRandomElement, hexecutes', by rwa [hlength],
      (List.take_prefix _ _).trans (List.take_prefix _ _), by rwa [hlength], ?_, ?_⟩
    · show engine'.replica.crdt.contains (engine'.randomElement x.order) = true ∨ _
      unfold CrdtEngine.answer CrdtEngine.randomElement
      cases he : engine'.replica.crdt.getRandomElement x.order with
      | none => exact Or.inr ⟨rfl, (OrSet.getRandomElement_eq_none_iff horder).mp he⟩
      | some e => exact Or.inl (OrSet.contains_of_getRandomElement horder he)
    · rw [hlength]
      dsimp only at hnext
      split at hnext
      · next herror =>
        cases hnext with
        | reply _ => exact Or.inl ⟨herror, rfl, rfl⟩
      · next hplain =>
        refine Or.inr ⟨Bool.eq_false_iff.mpr hplain, ?_⟩
        cases hnext with
        | @cast _ _ position' _ _ _ _ hle' hlog' hlast =>
          have hstop := hlast.start_le_stop
          cases hlast with
          | reply _ => exact ⟨rfl, position', hle', hstop, rfl, hlog'⟩

end results

/-! ## Two clients -/

/-- An engine that has bootstrapped from an empty bucket. -/
def idleEngine : CrdtEngine String "a" := (Server.serving false).engine

/-- The surroundings of an engine without peers. -/
def alone (order : List (Sigma fun _ : String => HashSet Dot)) : Surroundings :=
  { registry := ∅, choice := none, ok := true, storage := .fresh ∅, order, text := "" }

/-- The hash map of the adds after the first operation added `x`. -/
def onlyX : List (Sigma fun _ : String => HashSet Dot) :=
  [⟨"x", (∅ : HashSet Dot).insert ⟨"a", 1⟩ ()⟩]

/-- How a text without special characters is displayed. -/
def quoted (s : String) : String := "\"" ++ s ++ "\""

/-- The steps of two clients of one server. -/
abbrev Steps := List (Service.Label Bool Surroundings EngineRequest ClientMessage)

/-- One client adds an element, which is acknowledged before the engine looks at it. -/
def addsX : Steps := [.begin true (.ok (some (.add "x"))), .proceed true, .proceed true]

/-- The sessions after `ls`. -/
def after (ls : Steps) (st : Sessions "a" Bool) : Sessions "a" Bool :=
  (replay (Service.step (machine quoted "a")) (fun _ _ => True) st ls).getD st

theorem reachable_after {ls : Steps} {st : Sessions "a" Bool}
    (h : (replay (Service.step (machine quoted "a")) (fun _ _ => True) st ls).isSome = true) :
    Reachable (Service.step (machine quoted "a")) (fun _ _ => True) st (after ls st) :=
  reachable_of_isSome h

/-- One client adds an element, and the other one removes whatever the engine names. -/
def removesRandom : Steps :=
  addsX ++ [.begin false (.ok (some (.removeRandom true))), .proceed false,
    .serve (alone []), .serve (alone onlyX),
    .proceed false, .proceed false]

theorem removeRandom_names_present_removesRandom : ∃ engine' : CrdtEngine String "a",
    ∃ e, engine'.replica.crdt.contains e = true ∧
      (after removesRandom (.initial idleEngine)).log[2]? =
        some (.replication (.clientOperation (.remove e))) := by
  have hremoved : (after removesRandom (.initial idleEngine)).completed false =
      [⟨.ok (some (.removeRandom true)), "ok", 1, 3, [1, 2]⟩] := by decide +kernel
  obtain ⟨requests, answers, engine', e, -, -, -, -, hpresent, hresponse⟩ :=
    removeRandom_names_present quoted "a" idleEngine (after removesRandom (.initial idleEngine))
      (reachable_after (by decide +kernel)) false
        ⟨.ok (some (.removeRandom true)), "ok", 1, 3, [1, 2]⟩ true
      (by rw [hremoved]; exact List.mem_singleton_self _) rfl
  rcases hresponse with ⟨herror, rfl, -⟩ | ⟨hplain, -, position, -, -, hsent, hlog⟩
  · exact absurd herror (by decide +kernel)
  · obtain ⟨-, hposition⟩ := List.cons.inj hsent
    obtain rfl : 2 = position := (List.cons.inj hposition).1
    refine ⟨engine', e, hpresent.resolve_right ?_, hlog⟩
    rintro ⟨rfl, -⟩
    exact absurd hplain (by decide +kernel)

end ClientSessions

end ExperimentalCrdt
