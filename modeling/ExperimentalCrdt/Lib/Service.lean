import ExperimentalCrdt.Lib.Transition
import Mathlib.Logic.Function.Basic

/-!
# A server behind a queue

One server works off the requests of a bounded queue, one after the other. The sessions of its
clients put them there: a cast goes on at once, a call waits for the answer. What a command does is
a `Script` of casts and calls, and a session works off one command at a time. Others may put
requests into the queue as well, and the server may change in between.

A cast is acknowledged before anybody has looked at it. Still the commands are linearizable, in the
order in which their requests came into the queue: every request of a command has a place in that
order between the begin of the command and its response, and every answer is that of the server
after just the requests before it (`linearizable`).
-/

namespace Service

open Transition (Reachable)

inductive Script (R A O : Type) where
  | reply (response : O)
  | cast (request : R) (next : Script R A O)
  | call (request : R) (next : A → Script R A O)

/-- The server with its clients' commands; a step of the server may depend on `X`. -/
structure Machine (S X R A C O : Type) where
  serve : X → S → R → Option (S × A)
  inner : X → S → Option S
  script : C → Script R A O
  capacity : Nat

/-- What a session is doing, with the length of the log when the command began, the places of its
requests there, and the place of the request that is waited for. -/
inductive Phase (R A C O : Type) where
  | idle
  | running (command : C) (start : Nat) (sent : List Nat) (rest : Script R A O)
  | waiting (command : C) (start : Nat) (sent : List Nat) (position : Nat) (next : A → Script R A O)

/-- A command with its response, the length of the log when it began and when it ended, and the
places there of the requests that it put into the queue. -/
structure Completed (C O : Type) where
  command : C
  response : O
  start : Nat
  stop : Nat
  sent : List Nat
deriving DecidableEq

/-- The log of all requests, the answers to those that were worked off, and the completed commands
are a record that no step reads. -/
structure State (I S R A C O : Type) where
  server : S
  queue : List (R × Option I)
  phase : I → Phase R A C O
  completed : I → List (Completed C O)
  log : List R
  answers : List A

inductive Label (I X R C : Type) where
  | begin (i : I) (command : C)
  | proceed (i : I)
  | other (request : R)
  | serve (x : X)
  | inner (x : X)

variable {I S X R A C O : Type} [DecidableEq I]

/-- Every session is idle, and nothing has been asked. -/
def State.initial (s : S) : State I S R A C O :=
  { server := s, queue := [], phase := fun _ => .idle, completed := fun _ => [],
    log := [], answers := [] }

def State.setPhase (st : State I S R A C O) (i : I) (phase : Phase R A C O) : State I S R A C O :=
  { st with phase := Function.update st.phase i phase }

/-- A request is put into the queue, with the session that waits for the answer. -/
def State.enqueue (st : State I S R A C O) (request : R) (session : Option I) : State I S R A C O :=
  { st with queue := st.queue ++ [(request, session)], log := st.log ++ [request] }

/-- The answer goes to the session that waits for it. -/
def State.answer (st : State I S R A C O) (session : Option I) (a : A) : State I S R A C O :=
  match session with
  | none => st
  | some i =>
    match st.phase i with
    | .waiting command start sent _ next => st.setPhase i (.running command start sent (next a))
    | _ => st

/-- The next step of a session. -/
def proceed (m : Machine S X R A C O) (st : State I S R A C O) (i : I) :
    Option (State I S R A C O) :=
  match st.phase i with
  | .running command start sent (.reply response) =>
    some { st.setPhase i .idle with
      completed := Function.update st.completed i
        (st.completed i ++ [⟨command, response, start, st.log.length, sent⟩]) }
  | .running command start sent (.cast request next) =>
    if st.queue.length < m.capacity then
      some ((st.setPhase i (.running command start (sent ++ [st.log.length]) next)).enqueue
        request none)
    else none
  | .running command start sent (.call request next) =>
    if st.queue.length < m.capacity then
      some ((st.setPhase i
        (.waiting command start (sent ++ [st.log.length]) st.log.length next)).enqueue request
          (some i))
    else none
  | .idle | .waiting _ _ _ _ _ => none

def step (m : Machine S X R A C O) (st : State I S R A C O) :
    Label I X R C → Option (State I S R A C O)
  | .begin i command =>
    match st.phase i with
    | .idle => some (st.setPhase i (.running command st.log.length [] (m.script command)))
    | _ => none
  | .proceed i => proceed m st i
  | .other request => if st.queue.length < m.capacity then some (st.enqueue request none) else none
  | .serve x =>
    match st.queue with
    | (request, session) :: rest =>
      (m.serve x st.server request).map fun out =>
        State.answer { st with server := out.1, queue := rest, answers := st.answers ++ [out.2] }
          session out.2
    | [] => none
  | .inner x => (m.inner x st.server).map fun server => { st with server }

/-! ## The order of the log -/

/-- The server after some requests, with the answers to them. -/
inductive Executes (m : Machine S X R A C O) (s₀ : S) : List R → List A → S → Prop where
  | start : Executes m s₀ [] [] s₀
  | inner {requests : List R} {answers : List A} {s s' : S} {x : X}
      (prior : Executes m s₀ requests answers s)
      (taken : m.inner x s = some s') : Executes m s₀ requests answers s'
  | serve {requests : List R} {answers : List A} {s s' : S} {x : X} {request : R} {a : A}
      (prior : Executes m s₀ requests answers s) (taken : m.serve x s request = some (s', a)) :
      Executes m s₀ (requests ++ [request]) (answers ++ [a]) s'

omit [DecidableEq I] in
theorem Executes.length_eq {m : Machine S X R A C O} {s₀ s : S} {requests : List R}
    {answers : List A} (h : Executes m s₀ requests answers s) :
    requests.length = answers.length := by
  induction h with
  | start => rfl
  | inner _ _ ih => exact ih
  | serve _ _ ih =>
    rw [List.length_append, List.length_append, ih, List.length_singleton, List.length_singleton]

omit [DecidableEq I] in
theorem Executes.served {m : Machine S X R A C O} {s₀ s : S} {requests : List R} {answers : List A}
    (h : Executes m s₀ requests answers s) {position : Nat} {request : R} {a : A}
    (hrequest : requests[position]? = some request) (ha : answers[position]? = some a) :
    ∃ s' x s'', Executes m s₀ (requests.take position) (answers.take position) s' ∧
      m.serve x s' request = some (s'', a) := by
  induction h with
  | start => cases hrequest
  | inner _ _ ih => exact ih hrequest ha
  | @serve requests answers s s' x request' a' prior taken ih =>
    have hlen := prior.length_eq
    have hlt := (List.getElem?_eq_some_iff.mp hrequest).1
    rw [List.length_append, List.length_singleton] at hlt
    rcases Nat.lt_or_ge position requests.length with hbefore | hlast
    · rw [List.getElem?_append_left hbefore] at hrequest
      rw [List.getElem?_append_left (hlen ▸ hbefore)] at ha
      rw [List.take_append_of_le_length (Nat.le_of_lt hbefore),
        List.take_append_of_le_length (Nat.le_of_lt (hlen ▸ hbefore))]
      exact ih hrequest ha
    · obtain rfl : position = requests.length := by omega
      rw [List.getElem?_concat_length] at hrequest
      rw [hlen, List.getElem?_concat_length] at ha
      obtain rfl := Option.some.inj hrequest
      obtain rfl := Option.some.inj ha
      rw [List.take_left, hlen, List.take_left]
      exact ⟨s, x, s', prior, taken⟩

/-- The requests of a script stand in the log, in order and from `start` on, at the places `sent`,
and the answers lead to the response. -/
inductive Explains (log : List R) (answers : List A) :
    Script R A O → Nat → Nat → List Nat → O → Prop where
  | reply {start stop : Nat} {response : O} (hle : start ≤ stop) :
      Explains log answers (.reply response) start stop [] response
  | cast {start stop position : Nat} {sent : List Nat} {response : O} {request : R}
      {next : Script R A O}
      (hle : start ≤ position) (hlog : log[position]? = some request)
      (hnext : Explains log answers next (position + 1) stop sent response) :
      Explains log answers (.cast request next) start stop (position :: sent) response
  | call {start stop position : Nat} {sent : List Nat} {response : O} {request : R}
      {next : A → Script R A O} {a : A}
      (hle : start ≤ position) (hlog : log[position]? = some request)
      (hanswer : answers[position]? = some a)
      (hnext : Explains log answers (next a) (position + 1) stop sent response) :
      Explains log answers (.call request next) start stop (position :: sent) response

section order

variable {log log' : List R} {answers answers' : List A} {script : Script R A O}
  {start start' stop : Nat} {sent : List Nat} {response : O}

theorem getElem?_mono {α : Type} {l l' : List α} (h : l <+: l') {k : Nat} {a : α}
    (hk : l[k]? = some a) : l'[k]? = some a := by
  obtain ⟨hlt, rfl⟩ := List.getElem?_eq_some_iff.mp hk
  exact List.prefix_iff_getElem?.mp h k hlt

theorem Explains.mono (h : Explains log answers script start stop sent response)
    (hlog : log <+: log') (hanswers : answers <+: answers') :
    Explains log' answers' script start stop sent response := by
  induction h with
  | reply hle => exact .reply hle
  | cast hle hat _ ih => exact .cast hle (getElem?_mono hlog hat) ih
  | call hle hat ha _ ih => exact .call hle (getElem?_mono hlog hat) (getElem?_mono hanswers ha) ih

theorem Explains.earlier (h : Explains log answers script start stop sent response)
    (hle : start' ≤ start) :
    Explains log answers script start' stop sent response := by
  cases h with
  | reply h => exact .reply (Nat.le_trans hle h)
  | cast h hat hnext => exact .cast (Nat.le_trans hle h) hat hnext
  | call h hat ha hnext => exact .call (Nat.le_trans hle h) hat ha hnext

theorem Explains.start_le_stop (h : Explains log answers script start stop sent response) :
    start ≤ stop := by
  induction h with
  | reply hle => exact hle
  | cast hle _ _ ih => omega
  | call hle _ _ _ ih => omega

end order

/-! ## Sessions -/

section sessions

variable {m : Machine S X R A C O} {log log' : List R} {answers answers' : List A} {command : C}
  {script : Script R A O} {start position position' : Nat} {sent : List Nat} {phase : Phase R A C O}
  {completed : List (Completed C O)}

/-- Whatever explains the script from `position` on, now or later, explains the command from its
begin, with the requests that are `sent` already. -/
def LeadsTo (m : Machine S X R A C O) (log : List R) (answers : List A) (command : C) (start : Nat)
    (sent : List Nat) (script : Script R A O) (position : Nat) : Prop :=
  ∀ (log' : List R) (answers' : List A) (stop : Nat) (sent' : List Nat) (response : O),
    log <+: log' → answers <+: answers' →
      Explains log' answers' script position stop sent' response →
      Explains log' answers' (m.script command) start stop (sent ++ sent') response

theorem LeadsTo.mono (h : LeadsTo m log answers command start sent script position)
    (hlog : log <+: log') (hanswers : answers <+: answers') (hle : position ≤ position') :
    LeadsTo m log' answers' command start sent script position' :=
  fun log'' answers'' stop sent' response hlog' hanswers' hexplains =>
    h log'' answers'' stop sent' response (hlog.trans hlog') (hanswers.trans hanswers')
      (hexplains.earlier hle)

/-- What was done of the command is in the log. -/
def PhaseInv (m : Machine S X R A C O) (log : List R) (answers : List A) : Phase R A C O → Prop
  | .idle => True
  | .running command start sent rest => LeadsTo m log answers command start sent rest log.length
  | .waiting command start sent position next => ∃ request, log[position]? = some request ∧
      ∃ before, sent = before ++ [position] ∧
        LeadsTo m log answers command start before (.call request next) position

def Phase.start? : Phase R A C O → Option Nat
  | .idle => none
  | .running _ start _ _ | .waiting _ start _ _ _ => some start

structure SessionInv (m : Machine S X R A C O) (log : List R) (answers : List A)
    (phase : Phase R A C O) (completed : List (Completed C O)) : Prop where
  current : PhaseInv m log answers phase
  explained : ∀ d ∈ completed,
    Explains log answers (m.script d.command) d.start d.stop d.sent d.response
  stopped : ∀ d ∈ completed, d.stop ≤ log.length
  ordered : completed.Pairwise fun d d' => d.stop ≤ d'.start
  begun : ∀ start ∈ phase.start?, ∀ d ∈ completed, d.stop ≤ start

theorem SessionInv.mono (h : SessionInv m log answers phase completed) (hlog : log <+: log')
    (hanswers : answers <+: answers') :
    SessionInv m log' answers' phase completed := by
  refine ⟨?_, fun d hd => (h.explained d hd).mono hlog hanswers,
    fun d hd => Nat.le_trans (h.stopped d hd) hlog.length_le,
    h.ordered, h.begun⟩
  have hphase := h.current
  cases phase with
  | idle => trivial
  | running command start sent rest => exact LeadsTo.mono hphase hlog hanswers hlog.length_le
  | waiting command start sent position next =>
    obtain ⟨request, hat, before, hsent, hleads⟩ := hphase
    exact ⟨request, getElem?_mono hlog hat, before, hsent,
      hleads.mono hlog hanswers (Nat.le_refl _)⟩

theorem SessionInv.begin (h : SessionInv m log answers .idle completed) (command : C) :
    SessionInv m log answers (.running command log.length [] (m.script command)) completed := by
  refine ⟨fun log' answers' stop sent' response _ _ hexplains => hexplains,
    h.explained, h.stopped, h.ordered, ?_⟩
  intro start hstart d hd
  obtain rfl := Option.some.inj hstart
  exact h.stopped d hd

theorem SessionInv.reply {response : O}
    (h : SessionInv m log answers (.running command start sent (.reply response)) completed) :
    SessionInv m log answers .idle
      (completed ++ [⟨command, response, start, log.length, sent⟩]) := by
  have hleads : LeadsTo m log answers command start sent (.reply response) log.length := h.current
  refine ⟨trivial, ?_, ?_, ?_, nofun⟩
  · refine List.forall_mem_append.mpr ⟨h.explained, List.forall_mem_singleton.mpr ?_⟩
    have hexplains := hleads log answers log.length [] response List.prefix_rfl List.prefix_rfl
      (.reply (Nat.le_refl _))
    rwa [List.append_nil] at hexplains
  · exact List.forall_mem_append.mpr ⟨h.stopped, List.forall_mem_singleton.mpr (Nat.le_refl _)⟩
  · refine List.pairwise_append.mpr ⟨h.ordered, List.pairwise_singleton _ _, fun d hd d' hd' => ?_⟩
    obtain rfl := List.mem_singleton.mp hd'
    exact h.begun start rfl d hd

theorem SessionInv.cast {request : R} {next : Script R A O}
    (h : SessionInv m log answers (.running command start sent (.cast request next)) completed) :
    SessionInv m (log ++ [request]) answers (.running command start (sent ++ [log.length]) next)
      completed := by
  have hleads : LeadsTo m log answers command start sent (.cast request next) log.length :=
    h.current
  have hgrown := h.mono (List.prefix_append log [request]) List.prefix_rfl
  refine ⟨fun log' answers' stop sent' response hlog hanswers hexplains => ?_, hgrown.explained,
    hgrown.stopped, hgrown.ordered, h.begun⟩
  rw [List.append_assoc]
  refine hleads log' answers' stop _ response
    ((List.prefix_append log [request]).trans hlog) hanswers ?_
  refine .cast (Nat.le_refl _) (getElem?_mono hlog List.getElem?_concat_length) ?_
  rwa [List.length_append] at hexplains

theorem SessionInv.call {request : R} {next : A → Script R A O}
    (h : SessionInv m log answers (.running command start sent (.call request next)) completed) :
    SessionInv m (log ++ [request]) answers
      (.waiting command start (sent ++ [log.length]) log.length next) completed := by
  have hleads : LeadsTo m log answers command start sent (.call request next) log.length :=
    h.current
  have hgrown := h.mono (List.prefix_append log [request]) List.prefix_rfl
  exact ⟨⟨request, List.getElem?_concat_length, sent, rfl,
    hleads.mono (List.prefix_append _ _) List.prefix_rfl (Nat.le_refl _)⟩,
    hgrown.explained, hgrown.stopped, hgrown.ordered, h.begun⟩

theorem SessionInv.answered {next : A → Script R A O} {a : A}
    (h : SessionInv m log answers (.waiting command start sent position next) completed)
    (ha : answers[position]? = some a) :
    SessionInv m log answers (.running command start sent (next a)) completed := by
  obtain ⟨request, hat, before, rfl, hleads⟩ := h.current
  refine ⟨fun log' answers' stop sent' response hlog hanswers hexplains => ?_,
    h.explained, h.stopped,
    h.ordered, h.begun⟩
  rw [List.append_assoc]
  refine hleads log' answers' stop _ response hlog hanswers ?_
  refine .call (Nat.le_refl _) (getElem?_mono hlog hat) (getElem?_mono hanswers ha)
    (hexplains.earlier ?_)
  exact (List.getElem?_eq_some_iff.mp hat).1

end sessions

/-! ## Runs -/

structure Inv (m : Machine S X R A C O) (s₀ : S) (st : State I S R A C O) : Prop where
  executes : Executes m s₀ (st.log.take st.answers.length) st.answers st.server
  queue : st.queue.map Prod.fst = st.log.drop st.answers.length
  answered : st.answers.length ≤ st.log.length
  waits : ∀ k request i, st.queue[k]? = some (request, some i) →
    ∃ command start sent next, st.phase i = .waiting command start sent (st.answers.length + k) next
  sessions : ∀ i, SessionInv m st.log st.answers (st.phase i) (st.completed i)

section runs

variable {m : Machine S X R A C O} {s₀ : S} {st st' : State I S R A C O}

omit [DecidableEq I] in
theorem inv_initial (s₀ : S) : Inv m s₀ (State.initial s₀ : State I S R A C O) := by
  refine ⟨.start, rfl, Nat.le_refl _, nofun,
    fun i => ⟨trivial, nofun, nofun, List.Pairwise.nil, nofun⟩⟩

theorem Inv.waits_update (h : Inv m s₀ st) {i : I}
    (hphase : ∀ command start sent position next,
      st.phase i ≠ .waiting command start sent position next)
    (phase : Phase R A C O) {k : Nat} {request : R} {j : I}
    (hk : st.queue[k]? = some (request, some j)) :
    ∃ command start sent next,
      Function.update st.phase i phase j = .waiting command start sent
        (st.answers.length + k) next := by
  obtain ⟨command, start, sent, next, hwaits⟩ := h.waits k request j hk
  have hne : j ≠ i := by
    rintro rfl
    exact hphase _ _ _ _ _ hwaits
  rw [Function.update_of_ne hne]
  exact ⟨command, start, sent, next, hwaits⟩

omit [DecidableEq I] in
theorem length_queue (h : Inv m s₀ st) : st.answers.length + st.queue.length = st.log.length := by
  have hlen := congrArg List.length h.queue
  rw [List.length_map, List.length_drop] at hlen
  have := h.answered
  omega

omit [DecidableEq I] in
theorem Inv.enqueue (h : Inv m s₀ st) (request : R) (session : Option I) {phase : I → Phase R A C O}
    (hwaits : ∀ k r i, (st.queue ++ [(request, session)])[k]? = some (r, some i) →
      ∃ command start sent next, phase i = .waiting command start sent (st.answers.length + k) next)
    (hsessions : ∀ i, SessionInv m (st.log ++ [request]) st.answers (phase i) (st.completed i)) :
    Inv m s₀ { st with
      phase, queue := st.queue ++ [(request, session)], log := st.log ++ [request] } := by
  refine ⟨?_, ?_, ?_, hwaits, hsessions⟩
  · dsimp only
    rw [List.take_append_of_le_length h.answered]
    exact h.executes
  · dsimp only
    rw [List.map_append, h.queue, List.drop_append_of_le_length h.answered]
    rfl
  · dsimp only
    rw [List.length_append]
    exact Nat.le_add_right_of_le h.answered

omit [DecidableEq I] in
theorem Inv.waits_enqueue (h : Inv m s₀ st) {request : R} {session : Option I}
    {phase : I → Phase R A C O}
    (hold : ∀ k r i, st.queue[k]? = some (r, some i) →
      ∃ command start sent next, phase i = .waiting command start sent (st.answers.length + k) next)
    (hnew : ∀ i, session = some i → ∃ command start sent next,
      phase i = .waiting command start sent st.log.length next)
    {k : Nat} {r : R} {i : I} (hk : (st.queue ++ [(request, session)])[k]? = some (r, some i)) :
    ∃ command start sent next, phase i = .waiting command start sent
      (st.answers.length + k) next := by
  rcases Nat.lt_trichotomy k st.queue.length with hlt | heq | hgt
  · rw [List.getElem?_append_left hlt] at hk
    exact hold k r i hk
  · subst heq
    rw [List.getElem?_concat_length] at hk
    obtain ⟨-, rfl⟩ := Prod.mk.inj (Option.some.inj hk)
    rw [length_queue h]
    exact hnew i rfl
  · rw [List.getElem?_append_right (by omega),
      List.getElem?_eq_none (by rw [List.length_singleton]; omega)] at hk
    cases hk

theorem Inv.begin (h : Inv m s₀ st) {i : I} (command : C) (hidle : st.phase i = .idle) :
    Inv m s₀ (st.setPhase i (.running command st.log.length [] (m.script command))) := by
  refine ⟨h.executes, h.queue, h.answered, fun k request j hk => ?_, fun j => ?_⟩
  · exact h.waits_update (by rw [hidle]; exact nofun) _ hk
  · have hsession := h.sessions j
    unfold State.setPhase
    dsimp only
    by_cases hj : j = i
    · subst hj
      rw [Function.update_self]
      rw [hidle] at hsession
      exact hsession.begin command
    · rw [Function.update_of_ne hj]
      exact hsession

theorem Inv.proceed (h : Inv m s₀ st) {i : I} (hstep : proceed m st i = some st') :
    Inv m s₀ st' := by
  have hsession := h.sessions i
  have hgrown : ∀ request j, SessionInv m (st.log ++ [request]) st.answers
      (st.phase j) (st.completed j) := fun request j =>
    (h.sessions j).mono (List.prefix_append _ _) List.prefix_rfl
  unfold Service.proceed at hstep
  split at hstep
  · next command start sent response hphase =>
    obtain rfl := Option.some.inj hstep
    refine ⟨h.executes, h.queue, h.answered, fun k request j hk => ?_, fun j => ?_⟩
    · exact h.waits_update (by rw [hphase]; exact nofun) _ hk
    · unfold State.setPhase
      dsimp only
      by_cases hj : j = i
      · subst hj
        rw [Function.update_self, Function.update_self]
        rw [hphase] at hsession
        exact hsession.reply
      · rw [Function.update_of_ne hj, Function.update_of_ne hj]
        exact h.sessions j
  · next command start sent request next hphase =>
    split at hstep
    · obtain rfl := Option.some.inj hstep
      refine h.enqueue request none
        (fun k r j hk => h.waits_enqueue ?_ (fun _ hsome => by cases hsome) hk) fun j => ?_
      · exact fun k r j hk => h.waits_update (by rw [hphase]; exact nofun) _ hk
      · unfold State.setPhase
        dsimp only
        by_cases hj : j = i
        · subst hj
          rw [Function.update_self]
          rw [hphase] at hsession
          exact hsession.cast
        · rw [Function.update_of_ne hj]
          exact hgrown request j
    · cases hstep
  · next command start sent request next hphase =>
    split at hstep
    · obtain rfl := Option.some.inj hstep
      refine h.enqueue request (some i) (fun k r j hk => h.waits_enqueue ?_ ?_ hk) fun j => ?_
      · exact fun k r j hk => h.waits_update (by rw [hphase]; exact nofun) _ hk
      · intro j hj
        obtain rfl := Option.some.inj hj
        exact ⟨command, start, _, next, Function.update_self _ _ _⟩
      · unfold State.setPhase
        dsimp only
        by_cases hj : j = i
        · subst hj
          rw [Function.update_self]
          rw [hphase] at hsession
          exact hsession.call
        · rw [Function.update_of_ne hj]
          exact hgrown request j
    · cases hstep
  · cases hstep
  · cases hstep

theorem Inv.serve (h : Inv m s₀ st) {request : R} {session : Option I} {rest : List (R × Option I)}
    {x : X} {s : S} {a : A} (hqueue : st.queue = (request, session) :: rest)
    (hserve : m.serve x st.server request = some (s, a)) :
    Inv m s₀ (State.answer { st with server := s, queue := rest, answers := st.answers ++ [a] }
      session a) := by
  have hdrop := h.queue
  rw [hqueue, List.map_cons] at hdrop
  have hlt : st.answers.length < st.log.length := by
    have hlen := length_queue h
    rw [hqueue, List.length_cons] at hlen
    omega
  rw [List.drop_eq_getElem_cons hlt] at hdrop
  obtain ⟨hrequest, hrest⟩ := List.cons.inj hdrop
  have hsessions : ∀ j, SessionInv m st.log (st.answers ++ [a]) (st.phase j) (st.completed j) :=
      fun j =>
    (h.sessions j).mono List.prefix_rfl (List.prefix_append _ _)
  have hwaits : ∀ k r j, rest[k]? = some (r, some j) →
      ∃ command start sent next, st.phase j = .waiting command start sent
          ((st.answers ++ [a]).length + k) next := by
    intro k r j hk
    have hwait := h.waits (k + 1) r j (by rw [hqueue]; exact hk)
    rwa [List.length_append, List.length_singleton, Nat.add_assoc, Nat.add_comm 1 k]
  have hserved : Inv m s₀ { st with server := s, queue := rest, answers := st.answers ++ [a] } := by
    refine ⟨?_, ?_, ?_, hwaits, hsessions⟩
    · dsimp only
      rw [List.length_append, List.length_singleton, List.take_add_one,
        List.getElem?_eq_getElem hlt, ← hrequest]
      exact .serve h.executes hserve
    · dsimp only
      rw [List.length_append, List.length_singleton]
      exact hrest
    · dsimp only
      rw [List.length_append, List.length_singleton]
      exact hlt
  unfold State.answer
  split
  · exact hserved
  · next i =>
    dsimp only
    split
    · next command start sent position next hphase =>
      -- the session that waits, waits for this request
      obtain ⟨command', start', sent', next', hwait⟩ := h.waits 0 request i (by rw [hqueue]; rfl)
      rw [hphase] at hwait
      obtain ⟨rfl, rfl, rfl, rfl, rfl⟩ := Phase.waiting.inj hwait
      refine ⟨hserved.executes, hserved.queue, hserved.answered, fun k r j hk => ?_, fun j => ?_⟩
      · obtain ⟨command', start', sent', next', hwait'⟩ := hwaits k r j hk
        have hne : j ≠ i := by
          rintro rfl
          rw [hphase] at hwait'
          obtain ⟨-, -, -, hposition, -⟩ := Phase.waiting.inj hwait'
          rw [List.length_append, List.length_singleton] at hposition
          omega
        unfold State.setPhase
        dsimp only
        rw [Function.update_of_ne hne]
        exact ⟨command', start', sent', next', hwait'⟩
      · unfold State.setPhase
        dsimp only
        have hsession := hsessions j
        by_cases hj : j = i
        · subst hj
          rw [Function.update_self]
          rw [hphase] at hsession
          exact hsession.answered List.getElem?_concat_length
        · rw [Function.update_of_ne hj]
          exact hsession
    · exact hserved

theorem Inv.step (h : Inv m s₀ st) {l : Label I X R C} (hstep : step m st l = some st') :
    Inv m s₀ st' := by
  cases l with
  | begin i command =>
    change (match st.phase i with | .idle => _ | _ => _) = _ at hstep
    split at hstep
    · next hidle =>
      obtain rfl := Option.some.inj hstep
      exact h.begin command hidle
    · cases hstep
  | proceed i => exact h.proceed hstep
  | other request =>
    change (if _ then _ else _) = _ at hstep
    split at hstep
    · obtain rfl := Option.some.inj hstep
      exact h.enqueue request none
          (fun k r j hk => h.waits_enqueue h.waits (fun _ hsome => by cases hsome) hk) fun j =>
        (h.sessions j).mono (List.prefix_append _ _) List.prefix_rfl
    · cases hstep
  | serve x =>
    simp only [Service.step] at hstep
    split at hstep
    · next request session rest hqueue =>
      obtain ⟨⟨s, a⟩, hserve, rfl⟩ := Option.map_eq_some_iff.mp hstep
      exact h.serve hqueue hserve
    · cases hstep
  | inner x =>
    obtain ⟨s, hinner, rfl⟩ := Option.map_eq_some_iff.mp hstep
    exact ⟨.inner h.executes hinner, h.queue, h.answered, h.waits, h.sessions⟩

theorem inv_of_reachable {ok : State I S R A C O → Label I X R C → Prop}
    (h : Reachable (step m) ok (.initial s₀) st) :
    Inv m s₀ st :=
  h.invariant (inv_initial s₀) fun _ _ _ _ hinv _ hstep => hinv.step hstep

/-! ## Before and after -/

/-- What a session has to do with the time from `start` on: it began then. -/
def Begun (st : State I S R A C O) (i : I) (start : Nat) : Prop :=
  start ∈ (st.phase i).start? ∨ st.log.length ≤ start

/-- What was asked stays in its place, and what was not begun before, begins after it. -/
structure Later (st st' : State I S R A C O) : Prop where
  log : st.log <+: st'.log
  completed : ∀ i, ∃ new, st'.completed i = st.completed i ++ new ∧
    ∀ d ∈ new, Begun st i d.start ∧ st.log.length ≤ d.stop
  phase : ∀ i, ∀ start ∈ (st'.phase i).start?, Begun st i start

omit [DecidableEq I] in
theorem Later.of_eq (hlog : st.log <+: st'.log) (hcompleted : st'.completed = st.completed)
    (hphase : ∀ i, ∀ start ∈ (st'.phase i).start?, Begun st i start) : Later st st' :=
  ⟨hlog, fun i => ⟨[], by rw [hcompleted, List.append_nil], List.forall_mem_nil _⟩, hphase⟩

omit [DecidableEq I] in
theorem Later.begun {i : I} {start : Nat} (h : Later st st') (hbegun : Begun st' i start) :
    Begun st i start := by
  rcases hbegun with hstart | hle
  · exact h.phase i start hstart
  · exact Or.inr (Nat.le_trans h.log.length_le hle)

omit [DecidableEq I] in
theorem Later.trans {st'' : State I S R A C O} (h : Later st st') (h' : Later st' st'') :
    Later st st'' := by
  refine ⟨h.log.trans h'.log, fun i => ?_, fun i start hstart => h.begun (h'.phase i start hstart)⟩
  obtain ⟨new, hnew, hbegun⟩ := h.completed i
  obtain ⟨new', hnew', hbegun'⟩ := h'.completed i
  refine ⟨new ++ new',
    by rw [hnew', hnew, List.append_assoc], List.forall_mem_append.mpr ⟨hbegun, fun d hd => ?_⟩⟩
  obtain ⟨hstart, hstop⟩ := hbegun' d hd
  exact ⟨h.begun hstart, Nat.le_trans h.log.length_le hstop⟩

theorem begun_update {i j : I} {phase : Phase R A C O} {start : Nat}
    (hphase : ∀ start ∈ phase.start?, Begun st i start)
    (h : start ∈ (Function.update st.phase i phase j).start?) : Begun st j start := by
  by_cases hj : j = i
  · subst hj
    rw [Function.update_self] at h
    exact hphase start h
  · rw [Function.update_of_ne hj] at h
    exact Or.inl h

theorem later_proceed {i : I} (hstep : proceed m st i = some st') : Later st st' := by
  unfold Service.proceed at hstep
  split at hstep
  · next command start sent response hphase =>
    obtain rfl := Option.some.inj hstep
    refine ⟨List.prefix_rfl, fun j => ?_, fun j start' hstart => begun_update
      (by exact nofun) hstart⟩
    dsimp only
    by_cases hj : j = i
    · subst hj
      rw [Function.update_self]
      refine ⟨_, rfl, List.forall_mem_singleton.mpr ⟨Or.inl ?_, Nat.le_refl _⟩⟩
      rw [hphase]
      rfl
    · rw [Function.update_of_ne hj]
      exact ⟨[], (List.append_nil _).symm, List.forall_mem_nil _⟩
  · next command start sent request next hphase =>
    split at hstep
    · obtain rfl := Option.some.inj hstep
      refine Later.of_eq (List.prefix_append _ _) rfl fun j start' hstart =>
        begun_update (fun s hs => Or.inl ?_) hstart
      rw [hphase]
      exact hs
    · cases hstep
  · next command start sent request next hphase =>
    split at hstep
    · obtain rfl := Option.some.inj hstep
      refine Later.of_eq (List.prefix_append _ _) rfl fun j start' hstart =>
        begun_update (fun s hs => Or.inl ?_) hstart
      rw [hphase]
      exact hs
    · cases hstep
  · cases hstep
  · cases hstep

theorem later_answer {server : S} {queue : List (R × Option I)} {answers : List A}
    {session : Option I} {a : A} :
    Later st (State.answer { st with server, queue, answers } session a) := by
  unfold State.answer
  split
  · exact Later.of_eq List.prefix_rfl rfl fun _ _ hstart => Or.inl hstart
  · next i =>
    dsimp only
    split
    · next command start sent position next hphase =>
      refine Later.of_eq List.prefix_rfl rfl fun j start' hstart =>
        begun_update (fun s hs => Or.inl ?_) hstart
      rw [hphase]
      exact hs
    · exact Later.of_eq List.prefix_rfl rfl fun _ _ hstart => Or.inl hstart

theorem later_step {l : Label I X R C} (hstep : step m st l = some st') : Later st st' := by
  cases l with
  | begin i command =>
    change (match st.phase i with | .idle => _ | _ => _) = _ at hstep
    split at hstep
    · obtain rfl := Option.some.inj hstep
      refine Later.of_eq List.prefix_rfl rfl fun j start hstart =>
        begun_update (fun s hs => Or.inr ?_) hstart
      obtain rfl := Option.some.inj hs
      exact Nat.le_refl _
    · cases hstep
  | proceed i => exact later_proceed hstep
  | other request =>
    change (if _ then _ else _) = _ at hstep
    split at hstep
    · obtain rfl := Option.some.inj hstep
      exact Later.of_eq (List.prefix_append _ _) rfl fun _ _ hstart => Or.inl hstart
    · cases hstep
  | serve x =>
    simp only [Service.step] at hstep
    split at hstep
    · obtain ⟨⟨s, a⟩, -, rfl⟩ := Option.map_eq_some_iff.mp hstep
      exact later_answer
    · cases hstep
  | inner x =>
    obtain ⟨s, -, rfl⟩ := Option.map_eq_some_iff.mp hstep
    exact Later.of_eq List.prefix_rfl rfl fun _ _ hstart => Or.inl hstart

theorem later_of_reachable {ok : State I S R A C O → Label I X R C → Prop}
    (h : Reachable (step m) ok st st') :
    Later st st' :=
  h.invariant (Later.of_eq List.prefix_rfl rfl fun _ _ hstart => Or.inl hstart)
      fun _ _ _ _ hlater _ hstep =>
    hlater.trans (later_step hstep)

theorem begun_later {ok : State I S R A C O → Label I X R C → Prop}
    (h : Reachable (step m) ok (.initial s₀) st) (h' : Reachable (step m) ok st st') {i : I}
    {n : Nat} {d : Completed C O} (hd : (st'.completed i)[n]? = some d)
    (hn : (st.completed i).length + (st.phase i).start?.toList.length ≤ n) :
    st.log.length ≤ d.start := by
  obtain ⟨new, hnew, hbegun⟩ := (later_of_reachable h').completed i
  have hordered := ((inv_of_reachable (h.trans h')).sessions i).ordered
  rw [hnew] at hd hordered
  rw [List.getElem?_append_right (by omega)] at hd
  obtain ⟨hlt, rfl⟩ := List.getElem?_eq_some_iff.mp hd
  rcases (hbegun _ (List.getElem_mem hlt)).1 with hstart | hle
  · -- the command that is being worked off ends before
    have hpos : 0 < n - (st.completed i).length := by
      rw [Option.mem_def] at hstart
      rw [hstart] at hn
      simp only [Option.toList_some, List.length_singleton] at hn
      omega
    have hfirst := (hbegun _ (List.getElem_mem (Nat.lt_trans hpos hlt))).2
    exact Nat.le_trans hfirst
      (List.pairwise_iff_getElem.mp (List.pairwise_append.mp hordered).2.1 0 _ _ hlt hpos)
  · exact hle

/-- **The commands are linearizable**: the server has worked off the log in order, every command has
its requests there between its begin and its end, with the answers that the server gave, and what
begins after a command has ended comes after it. -/
theorem linearizable {ok : State I S R A C O → Label I X R C → Prop}
    (h : Reachable (step m) ok (.initial s₀) st) (h' : Reachable (step m) ok st st') :
    Executes m s₀ (st'.log.take st'.answers.length) st'.answers st'.server ∧
    (∀ i, ∀ d ∈ st'.completed i, Explains st'.log st'.answers
      (m.script d.command) d.start d.stop d.sent d.response) ∧
    ∀ i, ∀ d ∈ st.completed i, ∀ j n d', (st'.completed j)[n]? = some d' →
      (st.completed j).length + (st.phase j).start?.toList.length ≤ n → d.stop ≤ d'.start := by
  have hinv := inv_of_reachable (h.trans h')
  refine ⟨hinv.executes, fun i d hd => (hinv.sessions i).explained d hd,
    fun i d hd j n d' hd' hn => ?_⟩
  exact Nat.le_trans (((inv_of_reachable h).sessions i).stopped d hd) (begun_later h h' hd' hn)

/-! ## What the sessions work on -/

def Phase.command? : Phase R A C O → Option C
  | .idle => none
  | .running command _ _ _ | .waiting command _ _ _ _ => some command

omit [DecidableEq I] in
theorem toList_start? (phase : Phase R A C O) :
    phase.start?.toList.length = phase.command?.toList.length := by
  cases phase <;> rfl

theorem proceed_cases {i : I} (hstep : proceed m st i = some st') :
    (∃ command start sent response, st.phase i = .running command start sent (.reply response) ∧
      st'.phase = Function.update st.phase i .idle ∧
      st'.completed = Function.update st.completed i
        (st.completed i ++ [⟨command, response, start, st.log.length, sent⟩])) ∨
    (∀ command start sent response, st.phase i ≠ .running command start sent (.reply response)) ∧
    st'.completed = st.completed ∧
      ∀ j, (st'.phase j).command? = (st.phase j).command? := by
  have hsame : ∀ {phase : Phase R A C O}, phase.command? = (st.phase i).command? →
      ∀ j, (Function.update st.phase i phase j).command? = (st.phase j).command? := by
    intro phase hphase j
    by_cases hj : j = i
    · subst hj
      rw [Function.update_self, hphase]
    · rw [Function.update_of_ne hj]
  unfold Service.proceed at hstep
  split at hstep
  · next command start sent response hphase =>
    obtain rfl := Option.some.inj hstep
    exact Or.inl ⟨command, start, sent, response, hphase, rfl, rfl⟩
  · next command start sent request next hphase =>
    split at hstep
    · obtain rfl := Option.some.inj hstep
      refine Or.inr ⟨by simp [hphase], rfl, hsame ?_⟩
      rw [hphase]
      rfl
    · cases hstep
  · next command start sent request next hphase =>
    split at hstep
    · obtain rfl := Option.some.inj hstep
      refine Or.inr ⟨by simp [hphase], rfl, hsame ?_⟩
      rw [hphase]
      rfl
    · cases hstep
  · cases hstep
  · cases hstep

theorem command_answer {server : S} {queue : List (R × Option I)} {answers : List A}
    {session : Option I} {a : A} :
    (State.answer { st with server, queue, answers } session a).completed = st.completed ∧
    ∀ j, ((State.answer { st with server, queue, answers } session a).phase j).command? =
      (st.phase j).command? := by
  unfold State.answer
  split
  · exact ⟨rfl, fun _ => rfl⟩
  · next i =>
    dsimp only
    split
    · next command start sent position next hphase =>
      refine ⟨rfl, fun j => ?_⟩
      unfold State.setPhase
      dsimp only
      by_cases hj : j = i
      · subst hj
        rw [Function.update_self, hphase]
        rfl
      · rw [Function.update_of_ne hj]
    · exact ⟨rfl, fun _ => rfl⟩

end runs

end Service
