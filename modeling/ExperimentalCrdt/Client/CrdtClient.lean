import ExperimentalCrdt.Lib.Dialogue
import ExperimentalCrdt.Lib.Text
import ExperimentalCrdt.Network.Protocol
import ExperimentalCrdt.Server.ClientSessions
import Mathlib.Data.List.DropRight

/-!
# The client

`client/crdt_client.rs`, with the connection of a client in `server/client_requests_handler.rs`. The
client sends one command after the other, each as its length in four bytes and its encoding, and
waits for the response to each, which comes in the same form. There is no limit but that of the four
bytes.

Interactively the commands are typed, one a line. Not every element can be typed (`typed_iff`). What
comes back are the responses to the commands, in order (`commands_answered_in_turn`).
-/

namespace ExperimentalCrdt

namespace CrdtClient

open Proto (Command ProtoClientCommand)
open Protocol (putU32 fromBeBytes readExact readExact_eq_some_iff length_putU32 fromBeBytes_putU32)
open Dialogue (Framing Language)
open Transition (Reachable Halts)

/-! ## Typing -/

/-- The characters with the property `White_Space`. -/
def isWhitespace (c : Char) : Bool :=
  (9 ≤ c.toNat && c.toNat ≤ 13) || c.toNat == 0x20 || c.toNat == 0x85 || c.toNat == 0xA0 ||
    c.toNat == 0x1680 || (0x2000 ≤ c.toNat && c.toNat ≤ 0x200A) || c.toNat == 0x2028 ||
    c.toNat == 0x2029 || c.toNat == 0x202F || c.toNat == 0x205F || c.toNat == 0x3000

def trim (l : List Char) : List Char := (l.dropWhile isWhitespace).rdropWhile isWhitespace

def usage : String := ". Try: add <v>, remove <v>, print-state, print-internals, print-matrix, quit"

/-- A command, the end, or an error, which is empty for an empty line. -/
def parseLine (debug : String → String) (line : String) : Except String (Option Command) :=
  match (Text.splitN [' '] 2 (trim line.toList)).map String.ofList with
  | ["add", value] => .ok (some (.add value))
  | ["remove", value] => .ok (some (.remove value))
  | ["remove-random"] => .ok (some (.removeRandom true))
  | ["print-state"] => .ok (some (.printState true))
  | ["print-internals"] => .ok (some (.printInternals true))
  | ["print-matrix"] => .ok (some (.printMatrix true))
  | ["quit"] | ["exit"] => .ok none
  | [""] | [] => .error ""
  | _ => .error ("Unknown command: " ++ debug (String.ofList (trim line.toList)) ++ usage)

/-- The commands of `run_interactive`, which leaves out lines with an error. -/
def typed (debug : String → String) : List String → List Command
  | [] => []
  | line :: lines =>
    match parseLine debug line with
    | .ok (some command) => command :: typed debug lines
    | .ok none => []
    | .error _ => typed debug lines

/-- The commands that some line means: no element ends in white space or has a line break. -/
def Typeable : Command → Prop
  | .add value | .remove value =>
    (∃ c ∈ value.toList.getLast?, isWhitespace c = false) ∧ '\n' ∉ value.toList
  | .printState value | .printInternals value | .printMatrix value | .removeRandom value =>
    value = true

section typing

variable {l h t : List Char}

theorem separable_space : Text.Separable [' '] h ↔ ' ' ∉ h := by
  unfold Text.Separable
  rw [List.dropLast_singleton, List.append_nil, List.singleton_infix_iff]

theorem splitN_eq_pair_iff : Text.splitN [' '] 2 l = [h, t] ↔ l = h ++ ' ' :: t ∧ ' ' ∉ h := by
  rw [Text.splitN_eq_cons_cons_iff (List.cons_ne_nil _ _)]
  simp [Text.splitN, separable_space]

theorem mem_of_mem_trim {c : Char} (hc : c ∈ trim l) : c ∈ l :=
  (List.dropWhile_suffix _).subset ((List.rdropWhile_prefix _ _).subset hc)

theorem getLast?_trim {c : Char} (hc : c ∈ (trim l).getLast?) : isWhitespace c = false := by
  obtain ⟨hne, rfl⟩ := List.mem_getLast?_eq_getLast hc
  exact Bool.eq_false_iff.mpr (List.rdropWhile_last_not _ _ hne)

theorem trim_eq_self {c d : Char} (hc : isWhitespace c = false) (hd : d ∈ (c :: l).getLast?)
    (hwhite : isWhitespace d = false) : trim (c :: l) = c :: l := by
  have hstart : (c :: l).dropWhile isWhitespace = c :: l :=
    List.dropWhile_cons_of_neg (Bool.eq_false_iff.mp hc)
  unfold trim
  rw [hstart, List.rdropWhile_eq_self_iff]
  intro hne
  rw [List.getLast_of_mem_getLast? hd]
  exact Bool.eq_false_iff.mp hwhite

theorem typeable_of_trim {line word value : List Char} (hline : '\n' ∉ line)
    (h : trim line = word ++ ' ' :: value) :
    (∃ c ∈ value.getLast?, isWhitespace c = false) ∧ '\n' ∉ value := by
  have hlast : ∀ c ∈ (word ++ ' ' :: value).getLast?, isWhitespace c = false := fun c hc =>
    getLast?_trim (l := line) (h ▸ hc)
  refine ⟨?_, fun hbreak => hline
    (mem_of_mem_trim (h ▸ List.mem_append_right _ (List.mem_cons_of_mem _ hbreak)))⟩
  cases hvalue : value.getLast? with
  | none =>
    obtain rfl := List.getLast?_eq_none_iff.mp hvalue
    exact absurd (hlast ' ' List.getLast?_concat) (by decide)
  | some c =>
    exact ⟨c, rfl,
    hlast c (List.mem_getLast?_append_of_mem_getLast? (List.mem_getLast?_cons hvalue))⟩

theorem splitN_of_typeable (c : Char) (word : List Char) {value : List Char}
    (hc : isWhitespace c = false) (hword : ' ' ∉ c :: word)
    (hvalue : ∃ d ∈ value.getLast?, isWhitespace d = false) :
    Text.splitN [' '] 2 (trim (c :: word ++ ' ' :: value)) = [c :: word, value] := by
  obtain ⟨d, hd, hwhite⟩ := hvalue
  have hlast : d ∈ (c :: word ++ ' ' :: value).getLast? :=
    List.mem_getLast?_append_of_mem_getLast? (List.mem_getLast?_cons hd)
  rw [List.cons_append] at hlast ⊢
  rw [trim_eq_self hc hlast hwhite]
  exact splitN_eq_pair_iff.mpr ⟨rfl, hword⟩

theorem trim_of_pair {line : String} {word value : String}
    (h : (Text.splitN [' '] 2 (trim line.toList)).map String.ofList = [word, value]) :
    trim line.toList = word.toList ++ ' ' :: value.toList := by
  obtain ⟨h₁, l₁, hsplit, rfl, hrest⟩ := List.map_eq_cons_iff.mp h
  obtain ⟨h₂, l₂, rfl, rfl, hnil⟩ := List.map_eq_cons_iff.mp hrest
  obtain rfl := List.map_eq_nil_iff.mp hnil
  rw [String.toList_ofList, String.toList_ofList]
  exact (splitN_eq_pair_iff.mp hsplit).1

/-- **What can be typed.** -/
theorem typed_iff (debug : String → String) (command : Command) :
    (∃ line : String, '\n' ∉ line.toList ∧ parseLine debug line = .ok (some command)) ↔
    Typeable command := by
  constructor
  · rintro ⟨line, hline, h⟩
    unfold parseLine at h
    split at h
    · next value hparts =>
      obtain rfl := Option.some.inj (Except.ok.inj h)
      exact typeable_of_trim hline (trim_of_pair hparts)
    · next value hparts =>
      obtain rfl := Option.some.inj (Except.ok.inj h)
      exact typeable_of_trim hline (trim_of_pair hparts)
    all_goals cases h <;> rfl
  · intro h
    cases command with
    | add value =>
      refine ⟨"add " ++ value, ?_, ?_⟩
      · rw [String.toList_append, List.mem_append, not_or]
        exact ⟨by decide, h.2⟩
      · have hsplit : Text.splitN [' '] 2 (trim ("add " ++ value).toList) =
            ["add".toList, value.toList] := by
          rw [String.toList_append]
          exact splitN_of_typeable 'a' ['d', 'd'] (by decide) (by decide) h.1
        unfold parseLine
        rw [hsplit, List.map_cons, List.map_cons, List.map_nil, String.ofList_toList,
          String.ofList_toList]
        rfl
    | remove value =>
      refine ⟨"remove " ++ value, ?_, ?_⟩
      · rw [String.toList_append, List.mem_append, not_or]
        exact ⟨by decide, h.2⟩
      · have hsplit : Text.splitN [' '] 2 (trim ("remove " ++ value).toList) =
            ["remove".toList, value.toList] := by
          rw [String.toList_append]
          exact splitN_of_typeable 'r' ['e', 'm', 'o', 'v', 'e'] (by decide) (by decide) h.1
        unfold parseLine
        rw [hsplit, List.map_cons, List.map_cons, List.map_nil, String.ofList_toList,
          String.ofList_toList]
        rfl
    | printState value =>
      obtain rfl : value = true := h
      exact ⟨"print-state", by decide, rfl⟩
    | printInternals value =>
      obtain rfl : value = true := h
      exact ⟨"print-internals", by decide, rfl⟩
    | printMatrix value =>
      obtain rfl : value = true := h
      exact ⟨"print-matrix", by decide, rfl⟩
    | removeRandom value =>
      obtain rfl : value = true := h
      exact ⟨"remove-random", by decide, rfl⟩

end typing

/-! ## Frames -/

/-- The length and the bytes, as `send_command` and the server write them; both read them without a
limit. -/
def writeFrame (payload : List UInt8) : List UInt8 :=
  putU32 (UInt32.ofNat payload.length) ++ payload

def readFrame (stream : List UInt8) : Option (List UInt8 × List UInt8) :=
  (readExact 4 stream).bind fun out => readExact (fromBeBytes out.1).toNat out.2

section frames

variable {payload part : List UInt8}

theorem readExact_append {n : Nat} {l m : List UInt8} (h : l.length = n) :
    readExact n (l ++ m) = some (l, m) := by
  refine readExact_eq_some_iff.mpr ⟨?_, ?_⟩
  · rw [List.length_append]
    omega
  · rw [← h, List.take_left, List.drop_left]

theorem readExact_eq_none {n : Nat} {l : List UInt8} (h : l.length < n) :
    readExact n l = none := if_neg (Nat.not_le.mpr h)

theorem readFrame_writeFrame (h : payload.length < 2 ^ 32) :
    readFrame (writeFrame payload) = some (payload, []) := by
  have hlen : (UInt32.ofNat payload.length).toNat = payload.length := UInt32.toNat_ofNat_of_lt' h
  unfold readFrame writeFrame
  rw [readExact_append (length_putU32 _), Option.bind_some, fromBeBytes_putU32]
  have hall := readExact_append (n := payload.length) (l := payload) (m := []) rfl
  rwa [List.append_nil, ← hlen] at hall

theorem readFrame_part (h : payload.length < 2 ^ 32) (hpart : part <+: writeFrame payload)
    (hne : part ≠ writeFrame payload) :
    readFrame part = none := by
  have hlen : (UInt32.ofNat payload.length).toNat = payload.length := UInt32.toNat_ofNat_of_lt' h
  obtain ⟨rest, hrest⟩ := hpart
  have hshort : part.length < 4 + payload.length := by
    have hsum := congrArg List.length hrest
    unfold writeFrame at hsum
    rw [List.length_append, List.length_append, length_putU32] at hsum
    have hpos : 0 < rest.length :=
      List.length_pos_iff.mpr fun hnil => hne (by rw [← hrest, hnil, List.append_nil])
    omega
  unfold readFrame
  rcases Nat.lt_or_ge part.length 4 with hlt | hge
  · rw [readExact_eq_none hlt]
    rfl
  · -- the length has arrived
    have hhead : part.take 4 = putU32 (UInt32.ofNat payload.length) := by
      have htake := congrArg (List.take 4) hrest
      unfold writeFrame at htake
      rw [List.take_append_of_le_length hge] at htake
      rw [htake]
      exact List.take_left' (length_putU32 _)
    have hread : readExact 4 part = some (part.take 4, part.drop 4) :=
      readExact_eq_some_iff.mpr ⟨hge, rfl⟩
    rw [hread, Option.bind_some, hhead, fromBeBytes_putU32, hlen]
    refine readExact_eq_none ?_
    rw [List.length_drop]
    omega

end frames

def framing : Framing where
  frame := writeFrame
  read := readFrame
  Fits payload := payload.length < 2 ^ 32
  read_frame _ h := readFrame_writeFrame h
  read_part _ _ h hpart hne := readFrame_part h hpart hne
  read_nil := rfl

instance (payload : List UInt8) : Decidable (framing.Fits payload) :=
  Nat.decLt payload.length (2 ^ 32)

/-- Commands and responses, with the text of a failed decoding. -/
def language (decodeError : List UInt8 → String) :
    Language Command ClientSessions.ClientMessage String where
  encode command := ProtoClientCommand.encodeToVec ⟨some command⟩
  understand bytes :=
    match ProtoClientCommand.decode bytes with
    | some message => .ok message.command
    | none => .error (decodeError bytes)
  respond := Wire.utf8

/-- The server understands what the client says. -/
theorem understand_encode {decodeError : List UInt8 → String} {command : Command}
    (h : framing.Fits ((language decodeError).encode command)) :
    (language decodeError).understand ((language decodeError).encode command) =
      .ok (some command) := by
  have hdecode : ProtoClientCommand.decode (ProtoClientCommand.encodeToVec ⟨some command⟩) =
      some ⟨some command⟩ :=
    Proto.lawful_protoClientCommand.decode_encode (by decide) trivial (Nat.lt_trans h (by decide))
  unfold language
  dsimp only
  rw [hdecode]

/-- **Commands are answered in turn**: whatever the network does, the client sends its commands in
order, the server works off just these, and what the client receives are its responses, each to the
command it was sent for. If nobody gives up, the dialogue comes to an end, and then every command
has its response. -/
theorem commands_answered_in_turn (decodeError : List UInt8 → String) (commands : List Command)
    (hcommands : ∀ command ∈ commands, framing.Fits ((language decodeError).encode command)) :
    (∀ st, Reachable (Dialogue.step framing (language decodeError))
      (fun _ l => l.Fits framing (language decodeError))
        (.initial commands) st →
      st.heard.map (fun e => e.1) ++ st.waiting.toList ++ st.todo = commands ∧
      ∃ unheard, st.served.map (fun e => (e.1, Wire.utf8 e.2)) =
          st.heard.map (fun e => (.ok (some e.1), e.2)) ++ unheard ∧
        unheard.map (fun e => e.1) <+: st.waiting.toList.map fun command => .ok (some command)) ∧
    ∀ st, Reachable (Dialogue.step framing (language decodeError))
        (fun _ l => l.works = true ∧ l.Fits framing (language decodeError)) (.initial commands) st →
      Halts (Dialogue.step framing (language decodeError))
        (fun l => l.works = true ∧ l.Fits framing (language decodeError)) st ∧
      ((∀ l : Dialogue.Label String, l.works = true → l.Fits framing (language decodeError) →
          Dialogue.step framing (language decodeError) st l = none) →
        st.heard.map (fun e => e.1) = commands) := by
  have hok : framing.Fits ((language decodeError).respond "ok") :=
    show (Wire.utf8 "ok").length < 2 ^ 32 by decide
  refine ⟨fun st h => ?_, fun st h => Dialogue.all_answered hcommands h hok⟩
  obtain ⟨horder, unheard, hserved, hunheard⟩ := Dialogue.in_turn hcommands h
  refine ⟨horder, unheard, hserved.trans ?_, ?_⟩
  · refine congrArg (· ++ unheard) (List.map_congr_left fun e he => ?_)
    have hmem : e.1 ∈ commands := by
      rw [← horder, List.append_assoc]
      exact List.mem_append_left _ (List.mem_map_of_mem he)
    rw [understand_encode (hcommands e.1 hmem)]
  · have hwaiting :
        (st.waiting.toList.map fun q => (language decodeError).understand
          ((language decodeError).encode q)) =
        st.waiting.toList.map fun command => .ok (some command) := by
      refine List.map_congr_left fun command hc => ?_
      have hmem : command ∈ commands := by
        rw [← horder, List.append_assoc]
        exact List.mem_append_right _ (List.mem_append_left _ hc)
      exact understand_encode (hcommands command hmem)
    rwa [hwaiting] at hunheard

instance (decodeError : List UInt8 → String) (l : Dialogue.Label String) :
    Decidable (l.Fits framing (language decodeError)) := by
  cases l with
  | answer r => exact inferInstanceAs (Decidable (framing.Fits ((language decodeError).respond r)))
  | _ => exact inferInstanceAs (Decidable True)

/-- A command is typed, gets to the server in two pieces, and is answered with ok. -/
def addsX : List (Dialogue.Label String) :=
  [.ask, .writeUp 4, .arriveUp 2, .writeUp 3, .arriveUp 5, .read, .answer "ok",
    .writeDown 6, .arriveDown 6, .hear]

theorem commands_answered_in_turn_addsX :
    ∃ st : Dialogue.State Command ClientSessions.ClientMessage String,
    st.heard = [(.add "x", [111, 107])] ∧ st.todo = [.printState true] ∧
      st.served.map (fun e => (e.1, Wire.utf8 e.2)) = st.heard.map fun e =>
        (.ok (some e.1), e.2) := by
  obtain ⟨st, hst⟩ : ∃ st, Transition.replay (Dialogue.step framing (language fun _ => ""))
      (fun _ l => l.Fits framing (language fun _ => ""))
        (.initial (typed (fun line => line) ["add x", "", "print-state"]))
      addsX = some st := Option.isSome_iff_exists.mp (by decide +kernel)
  have hreplayed : (Transition.replay (Dialogue.step framing (language fun _ => ""))
      (fun _ l => l.Fits framing (language fun _ => ""))
        (.initial (typed (fun line => line) ["add x", "", "print-state"]))
      addsX).map (fun st => (st.heard, st.waiting, st.todo)) =
          some ([(.add "x", [111, 107])], none, [.printState true]) := by
    decide +kernel
  rw [hst] at hreplayed
  obtain ⟨hheard, hwaiting, htodo⟩ : st.heard = _ ∧ st.waiting = _ ∧ st.todo = _ := by
    simpa using hreplayed
  have hturn := (commands_answered_in_turn (fun _ => "") _ (by decide +kernel)).1 st
    (Transition.reachable_of_replay addsX .start hst)
  obtain ⟨-, unheard, hserved, hunheard⟩ := hturn
  refine ⟨st, hheard, htodo, ?_⟩
  rw [hwaiting] at hunheard
  have hnil := List.map_eq_nil_iff.mp (List.prefix_nil.mp hunheard)
  rwa [hnil, List.append_nil] at hserved

end CrdtClient

end ExperimentalCrdt
