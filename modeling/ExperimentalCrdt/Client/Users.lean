import ExperimentalCrdt.Client.CrdtClient

/-!
# Users of one server

Any number of clients, each with a connection of its own, and the engine behind the tasks of these
connections: a task reads a command, works it off with the engine, and writes the response. What a
user sees are the bytes that come back.

Once a user has received ok for an operation, whoever then sends print-state, over whatever
connection, receives a state in which the operation has been applied
(`acknowledged_operations_are_seen`).
-/

namespace ExperimentalCrdt

namespace Users

open Proto (Command)
open ClientSessions (ClientMessage Sessions machine operation operation_is_seen completed_operation)
open CrdtClient (framing language understand_encode)
open Service (Executes Machine)
open Transition (Reachable)

/-- The dialogue of a connection. -/
abbrev Talk := Dialogue.State Command ClientMessage String

/-- The tasks of the server and what goes on between them and the clients. -/
structure State (I : Type) (id : NodeId) where
  sessions : Sessions id I
  talks : I → Talk

inductive Label (I : Type) where
  | talk (i : I) (l : Dialogue.Label String)
  | read (i : I)
  | proceed (i : I)
  | other (request : EngineRequest)
  | serve (x : Surroundings)
  | inner (x : Surroundings)

section model

variable {I : Type} [DecidableEq I] {id : NodeId} (debug : String → String)
  (decodeError : List UInt8 → String)

/-- The clients have commands to send. -/
def State.initial (engine : CrdtEngine String id) (commands : I → List Command) : State I id :=
  { sessions := .initial engine, talks := fun i => .initial (commands i) }

variable (st : State I id)

def State.setTalk (i : I) (talk : Talk) : State I id :=
  { st with talks := Function.update st.talks i talk }

/-- The sessions take a step. -/
def State.engineStep (l : Service.Label I Surroundings EngineRequest ClientMessage) :
    Option (State I id) :=
  (Service.step (machine debug id) st.sessions l).map fun sessions => { st with sessions }

/-- A task that has worked off its command writes the response. -/
def proceed (i : I) : Option (State I id) :=
  match st.sessions.phase i with
  | .running _ _ _ (.reply response) =>
    (Dialogue.answer framing (language decodeError) (st.talks i) response).bind fun talk =>
      (st.setTalk i talk).engineStep debug (.proceed i)
  | _ => st.engineStep debug (.proceed i)

def step : Label I → Option (State I id)
  | .talk i l =>
    if l.serves then none
    else (Dialogue.step framing (language decodeError) (st.talks i) l).map fun talk =>
      st.setTalk i talk
  | .read i =>
    (Dialogue.read framing (language decodeError) (st.talks i)).bind fun talk =>
      talk.handling.bind fun message => (st.setTalk i talk).engineStep debug (.begin i message)
  | .proceed i => proceed debug decodeError st i
  | .other request => st.engineStep debug (.other request)
  | .serve x => st.engineStep debug (.serve x)
  | .inner x => st.engineStep debug (.inner x)

/-- No response is longer than four bytes can say. -/
def Label.Fits (st : State I id) : Label I → Prop
  | .proceed i =>
    match st.sessions.phase i with
    | .running _ _ _ (.reply response) => framing.Fits (Wire.utf8 response)
    | _ => True
  | _ => True

instance (st : State I id) (l : Label I) : Decidable (l.Fits st) := by
  cases l with
  | proceed i =>
    unfold Label.Fits
    dsimp only
    split <;> infer_instance
  | _ => exact inferInstanceAs (Decidable True)

end model

section runs

variable {I : Type} [DecidableEq I] {id : NodeId} {debug : String → String}
  {decodeError : List UInt8 → String} {st st' : State I id}

/-- A connection and its task are at the same command. -/
structure Linked (st : State I id) : Prop where
  served : ∀ i, (st.talks i).served = (st.sessions.completed i).map fun d => (d.command, d.response)
  handling : ∀ i, (st.talks i).handling = (st.sessions.phase i).command?

/-- What a step is for the sessions and for every connection. -/
structure Parts (debug : String → String) (decodeError : List UInt8 → String)
    (st st' : State I id) : Prop where
  sessions : Reachable (Service.step (machine debug id)) (fun _ _ => True) st.sessions st'.sessions
  talks : ∀ i, Reachable (Dialogue.step framing (language decodeError))
    (fun _ l => l.Fits framing (language decodeError)) (st.talks i) (st'.talks i)

theorem Parts.trans {st'' : State I id} (h : Parts debug decodeError st st')
    (h' : Parts debug decodeError st' st'') :
    Parts debug decodeError st st'' :=
  ⟨h.sessions.trans h'.sessions, fun i => (h.talks i).trans (h'.talks i)⟩

theorem parts_of_engine {l : Service.Label I Surroundings EngineRequest ClientMessage}
    (h : st.engineStep debug l = some st') : Parts debug decodeError st st' ∧ st'.talks = st.talks ∧
      Service.step (machine debug id) st.sessions l = some st'.sessions := by
  obtain ⟨sessions, hstep, rfl⟩ := Option.map_eq_some_iff.mp h
  exact ⟨⟨.next .start trivial hstep, fun _ => .start⟩, rfl, hstep⟩

theorem parts_of_talk {i : I} {talk : Talk} {l : Dialogue.Label String}
    (hl : l.Fits framing (language decodeError))
    (h : Dialogue.step framing (language decodeError) (st.talks i) l = some talk) :
    Parts debug decodeError st (st.setTalk i talk) := by
  refine ⟨.start, fun j => ?_⟩
  unfold State.setTalk
  dsimp only
  by_cases hj : j = i
  · subst hj
    rw [Function.update_self]
    exact .next .start hl h
  · rw [Function.update_of_ne hj]
    exact .start

omit [DecidableEq I] in
theorem Linked.engine (h : Linked st) (htalks : st'.talks = st.talks)
    (hcompleted : st'.sessions.completed = st.sessions.completed)
    (hcommand : ∀ i, (st'.sessions.phase i).command? = (st.sessions.phase i).command?) :
    Linked st' := by
  refine ⟨fun i => ?_, fun i => ?_⟩
  · rw [htalks, hcompleted]
    exact h.served i
  · rw [htalks, hcommand]
    exact h.handling i

theorem Linked.read (h : Linked st) {i : I}
    (hstep : step debug decodeError st (.read i) = some st') :
    Parts debug decodeError st st' ∧ Linked st' := by
  obtain ⟨talk, hread, hrest⟩ := Option.bind_eq_some_iff.mp hstep
  obtain ⟨message, hmessage, hbegin⟩ := Option.bind_eq_some_iff.mp hrest
  obtain ⟨hparts, htalks, hsession⟩ := parts_of_engine hbegin
  have htalk : Parts debug decodeError st (st.setTalk i talk) :=
    parts_of_talk (l := .read) trivial hread
  refine ⟨htalk.trans hparts, ?_⟩
  obtain ⟨-, hserved, -⟩ := Dialogue.read_eq_some hread
  simp only [Service.step] at hsession
  split at hsession
  · have hst := Option.some.inj hsession
    refine ⟨fun j => ?_, fun j => ?_⟩
    · rw [htalks, ← hst]
      show (Function.update st.talks i talk j).served = (st.sessions.completed j).map _
      by_cases hj : j = i
      · subst hj
        rw [Function.update_self, hserved, h.served]
      · rw [Function.update_of_ne hj, h.served]
    · rw [htalks, ← hst]
      show (Function.update st.talks i talk j).handling =
        (Function.update st.sessions.phase i _ j).command?
      by_cases hj : j = i
      · subst hj
        rw [Function.update_self, Function.update_self, hmessage]
        rfl
      · rw [Function.update_of_ne hj, Function.update_of_ne hj, h.handling]
  · cases hsession

theorem Linked.proceed (h : Linked st) {i : I} (hfits : Label.Fits st (.proceed i))
    (hstep : Users.proceed debug decodeError st i = some st') :
    Parts debug decodeError st st' ∧ Linked st' := by
  unfold Users.proceed at hstep
  split at hstep
  · next message start sent response hphase =>
    obtain ⟨talk, hanswer, hengine⟩ := Option.bind_eq_some_iff.mp hstep
    obtain ⟨hparts, htalks, hsession⟩ := parts_of_engine hengine
    unfold Label.Fits at hfits
    dsimp only at hfits
    rw [hphase] at hfits
    have htalk : Parts debug decodeError st (st.setTalk i talk) :=
      parts_of_talk (l := .answer response) hfits hanswer
    refine ⟨htalk.trans hparts, ?_⟩
    obtain ⟨m, hm, hidle, hserved⟩ := Dialogue.answer_eq_some hanswer
    rw [h.handling, hphase] at hm
    obtain rfl := Option.some.inj hm
    rcases Service.proceed_cases hsession with
      ⟨command, start', sent', response', hphase', hupdate, hcompleted⟩ | ⟨hnot, -⟩
    · obtain ⟨rfl, rfl, rfl, heq⟩ := Service.Phase.running.inj (hphase.symm.trans hphase')
      obtain rfl := Service.Script.reply.inj heq
      refine ⟨fun j => ?_, fun j => ?_⟩
      · rw [htalks, hcompleted]
        show (Function.update st.talks i talk j).served =
          (Function.update st.sessions.completed i _ j).map _
        by_cases hj : j = i
        · subst hj
          rw [Function.update_self, Function.update_self, hserved, h.served, List.map_append]
          rfl
        · rw [Function.update_of_ne hj, Function.update_of_ne hj, h.served]
      · rw [htalks, hupdate]
        show (Function.update st.talks i talk j).handling =
          (Function.update st.sessions.phase i _ j).command?
        by_cases hj : j = i
        · subst hj
          rw [Function.update_self, Function.update_self, hidle]
          rfl
        · rw [Function.update_of_ne hj, Function.update_of_ne hj, h.handling]
    · exact absurd hphase (hnot _ _ _ _)
  · next hnot =>
    obtain ⟨hparts, htalks, hsession⟩ := parts_of_engine hstep
    refine ⟨hparts, ?_⟩
    rcases Service.proceed_cases hsession with
      ⟨command, start, sent, response, hphase, -⟩ | ⟨-, hcompleted, hcommand⟩
    · exact absurd hphase (hnot _ _ _ _)
    · exact h.engine htalks hcompleted hcommand

theorem Linked.step (h : Linked st) {l : Label I} (hfits : l.Fits st)
    (hstep : step debug decodeError st l = some st') :
    Parts debug decodeError st st' ∧ Linked st' := by
  cases l with
  | talk i l =>
    change (if _ then _ else _) = _ at hstep
    split at hstep
    · cases hstep
    · next hserves =>
      rw [Bool.not_eq_true] at hserves
      obtain ⟨talk, htalk, rfl⟩ := Option.map_eq_some_iff.mp hstep
      obtain ⟨hserved, hhandling⟩ := Dialogue.served_of_not_serves hserves htalk
      have hl : l.Fits framing (language decodeError) := by
        cases l with
        | answer r => cases hserves
        | _ => trivial
      refine ⟨parts_of_talk hl htalk, fun j => ?_, fun j => ?_⟩
      · show (Function.update st.talks i talk j).served = _
        by_cases hj : j = i
        · subst hj
          rw [Function.update_self, hserved]
          exact h.served j
        · rw [Function.update_of_ne hj]
          exact h.served j
      · show (Function.update st.talks i talk j).handling = _
        by_cases hj : j = i
        · subst hj
          rw [Function.update_self, hhandling]
          exact h.handling j
        · rw [Function.update_of_ne hj]
          exact h.handling j
  | read i => exact h.read hstep
  | proceed i => exact h.proceed hfits hstep
  | other request =>
    obtain ⟨hparts, htalks, hsession⟩ := parts_of_engine hstep
    change (if _ then _ else _) = _ at hsession
    split at hsession
    · have hst := Option.some.inj hsession
      exact ⟨hparts, h.engine htalks (by rw [← hst]; rfl) fun i => by rw [← hst]; rfl⟩
    · cases hsession
  | serve x =>
    obtain ⟨hparts, htalks, hsession⟩ := parts_of_engine hstep
    simp only [Service.step] at hsession
    split at hsession
    · obtain ⟨out, -, hst⟩ := Option.map_eq_some_iff.mp hsession
      refine ⟨hparts, h.engine htalks ?_ fun i => ?_⟩
      · rw [← hst]
        exact Service.command_answer.1
      · rw [← hst]
        exact Service.command_answer.2 i
    · cases hsession
  | inner x =>
    obtain ⟨hparts, htalks, hsession⟩ := parts_of_engine hstep
    obtain ⟨server, -, hst⟩ := Option.map_eq_some_iff.mp hsession
    exact ⟨hparts, h.engine htalks (by rw [← hst]) fun i => by rw [← hst]⟩

omit [DecidableEq I] in
theorem linked_initial (engine : CrdtEngine String id) (commands : I → List Command) :
    Linked (State.initial engine commands) := ⟨fun _ => rfl, fun _ => rfl⟩

/-- A run is one of the sessions and one of every connection, and they stay linked. -/
theorem linked_of_reachable (h : Reachable (Users.step debug decodeError)
    (fun st l => l.Fits st) st st') (hst : Linked st) :
    Parts debug decodeError st st' ∧ Linked st' := by
  refine h.invariant (P := fun st' => Parts debug decodeError st st' ∧ Linked st')
    ⟨⟨.start, fun _ => .start⟩, hst⟩ ?_
  intro s l s' _ ⟨hparts, hlinked⟩ hl hstep
  obtain ⟨hparts', hlinked'⟩ := hlinked.step hl hstep
  exact ⟨hparts.trans hparts', hlinked'⟩

omit [DecidableEq I] in
theorem completed_of_heard (hlinked : Linked st) {i : I} {commands : List Command}
    (hcommands : ∀ command ∈ commands, framing.Fits ((language decodeError).encode command))
    (htalk : Dialogue.Inv framing (language decodeError) commands (st.talks i)) {n : Nat}
    {command : Command} {bytes : List UInt8}
    (hheard : (st.talks i).heard[n]? = some (command, bytes)) :
    ∃ d, (st.sessions.completed i)[n]? = some d ∧ d.command = .ok (some command) ∧
    bytes = Wire.utf8 d.response := by
  obtain ⟨unheard, hserved, -⟩ := htalk.answers
  have hmem : command ∈ commands := by
    rw [← htalk.order, List.append_assoc]
    exact List.mem_append_left _ (List.mem_map_of_mem (List.mem_of_getElem? hheard))
  have hat := congrArg (fun l => l[n]?) hserved
  have hlt := (List.getElem?_eq_some_iff.mp hheard).1
  rw [List.getElem?_append_left (by rwa [List.length_map]), List.getElem?_map,
    List.getElem?_map, hheard,
    hlinked.served, List.getElem?_map] at hat
  cases hd : (st.sessions.completed i)[n]? with
  | none =>
    rw [hd] at hat
    cases hat
  | some d =>
    rw [hd] at hat
    obtain ⟨hcommand, hresponse⟩ := Prod.mk.inj (Option.some.inj hat)
    exact ⟨d, rfl, hcommand.trans (understand_encode (hcommands command hmem)), hresponse.symm⟩

/-- **What was acknowledged is seen**: a user who has received a response to an operation has
received ok, the operation is the one request of that command in the log, and whoever asks for the
state from then on receives that of an engine that has worked off the whole log up to then. -/
theorem acknowledged_operations_are_seen (debug : String → String)
    (decodeError : List UInt8 → String) (id : NodeId) (engine : CrdtEngine String id)
    (commands : I → List Command)
    (hcommands : ∀ i, ∀ command ∈ commands i, framing.Fits ((language decodeError).encode command))
    (st st' : State I id)
    (h : Reachable (step debug decodeError) (fun st l => l.Fits st) (.initial engine commands) st)
    (h' : Reachable (step debug decodeError) (fun st l => l.Fits st) st st') (i : I) (n : Nat)
    (command : Command) (bytes : List UInt8) (op : OrSetOp String)
    (hheard : (st.talks i).heard[n]? = some (command, bytes))
    (hop : operation (.ok (some command)) = some op) :
    bytes = Wire.utf8 "ok" ∧
    (∃ d position, (st.sessions.completed i)[n]? = some d ∧ d.command = .ok (some command) ∧
      d.sent = [position] ∧
      st.sessions.log[position]? = some (.replication (.clientOperation op))) ∧
    ∀ j value bytes',
      (.printState value, bytes') ∈ (st'.talks j).heard.drop
          ((st.talks j).heard.length + (st.talks j).waiting.toList.length) →
        ∃ requests answers engine' order,
          Executes (machine debug id) engine requests answers engine' ∧
          st.sessions.log <+: requests ∧ requests <+: st'.sessions.log ∧
          order.Perm engine'.replica.crdt.adds.entries ∧
          bytes' = Wire.utf8 (engine'.replica.crdt.printState debug order) := by
  obtain ⟨hparts, hlinked⟩ := linked_of_reachable h (linked_initial engine commands)
  obtain ⟨hparts', hlinked'⟩ := linked_of_reachable h' hlinked
  have htalk : ∀ i, Dialogue.Inv framing (language decodeError) (commands i) (st.talks i) :=
      fun i =>
    Dialogue.inv_of_reachable (hcommands i) (hparts.talks i)
  have htalk' : ∀ i, Dialogue.Inv framing (language decodeError) (commands i) (st'.talks i) :=
      fun i =>
    Dialogue.inv_of_reachable (hcommands i) ((hparts.talks i).trans (hparts'.talks i))
  obtain ⟨d, hd, hcommand, rfl⟩ := completed_of_heard hlinked (hcommands i) (htalk i) hheard
  rw [← hcommand] at hop
  obtain ⟨hok, position, -, hsent, hlog⟩ :=
    completed_operation hparts.sessions (List.mem_of_getElem? hd) hop
  refine ⟨congrArg Wire.utf8 hok, ⟨d, position, hd, hcommand, hsent, hlog⟩,
    fun j value bytes' hprint => ?_⟩
  obtain ⟨k, hk⟩ := List.mem_iff_getElem?.mp hprint
  rw [List.getElem?_drop] at hk
  obtain ⟨d', hd', hcommand', rfl⟩ := completed_of_heard hlinked' (hcommands j) (htalk' j) hk
  -- the command came after all that was begun for this user
  have hle := (htalk j).turn.served_le
  rw [hlinked.served, hlinked.handling, List.length_map, ← Service.toList_start?] at hle
  have hafter : st.sessions.log.length ≤ d'.start :=
    Service.begun_later hparts.sessions hparts'.sessions hd' (by omega)
  obtain ⟨requests, answers, engine', order, hexecutes, hprefix, hstart, horder, hresponse⟩ :=
    operation_is_seen (hparts.sessions.trans hparts'.sessions) (List.mem_of_getElem? hd') hcommand'
  refine ⟨requests, answers, engine', order, hexecutes, ?_, hprefix, horder,
    congrArg Wire.utf8 hresponse⟩
  have hgrown := (Service.later_of_reachable hparts'.sessions).log
  exact List.prefix_of_prefix_length_le hgrown hprefix (by omega)

end runs

/-! ## Two users -/

open ClientSessions (idleEngine alone onlyX quoted)

/-- One user adds an element, the other one asks for the state. -/
def commands : Bool → List Command
  | true => [.add "x"]
  | false => [.printState true]

/-- The element is acknowledged before the engine looks at the operation. -/
def addsX : List (Label Bool) :=
  [.talk true .ask, .talk true (.writeUp 7), .talk true (.arriveUp 7), .read true,
    .proceed true, .proceed true,
    .talk true (.writeDown 6), .talk true (.arriveDown 6), .talk true .hear]

def printsState : List (Label Bool) :=
  [.talk false .ask, .talk false (.writeUp 6), .talk false (.arriveUp 6),
    .read false, .proceed false,
    .serve (alone []), .serve (alone onlyX), .proceed false, .talk false (.writeDown 7),
      .talk false (.arriveDown 7),
    .talk false .hear]

/-- The two users after `ls`. -/
def after (ls : List (Label Bool)) (st : State Bool "a") : State Bool "a" :=
  (Transition.replay (step quoted fun _ => "") (fun st l => l.Fits st) st ls).getD st

def acknowledged : State Bool "a" := after addsX (.initial idleEngine commands)

theorem acknowledged_operations_are_seen_addsX :
    ∃ requests answers engine' order,
      Executes (machine quoted "a") idleEngine requests answers engine' ∧
      acknowledged.sessions.log <+: requests ∧
      requests <+: (after printsState acknowledged).sessions.log ∧
      order.Perm engine'.replica.crdt.adds.entries ∧
      Wire.utf8 "\"x\"" = Wire.utf8 (engine'.replica.crdt.printState quoted order) := by
  have hreached : ∀ {ls : List (Label Bool)} {st : State Bool "a"},
      (Transition.replay (step quoted fun _ => "") (fun st l => l.Fits st) st ls).isSome = true →
        Reachable (step quoted fun _ => "") (fun st l => l.Fits st) st (after ls st) :=
          Transition.reachable_of_isSome
  have hcommands : ∀ i, ∀ command ∈ commands i,
    framing.Fits ((language fun _ => "").encode command) := by decide +kernel
  have hadded : (acknowledged.talks true).heard = [(.add "x", Wire.utf8 "ok")] := by decide +kernel
  have hidle : (acknowledged.talks false).heard = [] ∧ (acknowledged.talks false).waiting = none :=
    by decide +kernel
  have hprinted : ((after printsState acknowledged).talks false).heard =
      [(.printState true, Wire.utf8 "\"x\"")] := by
    decide +kernel
  have hseen := acknowledged_operations_are_seen quoted
    (fun _ => "") "a" idleEngine commands hcommands acknowledged
    (after printsState acknowledged) (hreached (by decide +kernel))
      (hreached (by decide +kernel)) true 0 (.add "x")
    (Wire.utf8 "ok") (.add "x") (by rw [hadded]; rfl) rfl
  refine hseen.2.2 false true _ ?_
  rw [hidle.1, hidle.2, hprinted]
  exact List.mem_singleton_self _

end Users

end ExperimentalCrdt
