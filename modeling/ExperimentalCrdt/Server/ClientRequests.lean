import ExperimentalCrdt.Engine.Replication
import ExperimentalCrdt.Storage.S3Client

/-!
# Client commands

`server/client_requests_handler.rs`, for the commands that change the set. The engine takes every
request, and no other request comes between the two of a `RemoveRandom`: the handler asks the engine
for some element, and hands it back in an operation that removes it.

Which element the engine names depends on the order in which the hash map is gone through. Errors
come back in the same text as elements, so an element that looks like an error is not removed; and a
remove takes every element along that has no dot of its own. Nothing else goes wrong, in whatever
state the engine is (`removeRandom_removes_one_iff`).
-/

namespace ExperimentalCrdt

open Transition (Reachable replay reachable_of_replay)

/-- The commands of `ProtoClientCommand` that change the set. -/
inductive ClientCommand where
  | add (value : String)
  | remove (value : String)
  | removeRandom
deriving DecidableEq, Repr

namespace OrSet

variable {E : Type} [DecidableEq E]

/-- `elements`, when the map is gone through in the given order. -/
def elementsIn (self : OrSet E) (order : List (Sigma fun _ : E => HashSet Dot)) : List E :=
  (order.filter fun e => self.anyVisible e.2).map fun e => e.1

def getRandomElement (self : OrSet E) (order : List (Sigma fun _ : E => HashSet Dot)) : Option E :=
  (self.elementsIn order).head?

def isEmpty (self : OrSet E) : Bool := self.len == 0

variable {s : OrSet E} {order : List (Sigma fun _ : E => HashSet Dot)} {e x : E}

theorem isEmpty_iff : s.isEmpty = true ↔ ∀ e, s.contains e = false := by
  have hlen : s.len = s.elements.length := (List.length_map _).symm
  unfold isEmpty
  rw [beq_iff_eq, hlen, List.length_eq_zero_iff, List.eq_nil_iff_forall_not_mem]
  refine forall_congr' fun e => ?_
  rw [mem_elements, Bool.not_eq_true]

theorem isEmpty_eq_false_of_contains (h : s.contains e = true) : s.isEmpty = false := by
  by_contra hempty
  rw [Bool.not_eq_false] at hempty
  rw [isEmpty_iff.mp hempty e] at h
  cases h

theorem mem_elementsIn (horder : order.Perm s.adds.entries) :
    e ∈ s.elementsIn order ↔ s.contains e = true := by
  have hperm : (s.elementsIn order).Perm s.elements := (horder.filter _).map _
  rw [hperm.mem_iff, mem_elements]

theorem getRandomElement_eq_none_iff (horder : order.Perm s.adds.entries) :
    s.getRandomElement order = none ↔ ∀ e, s.contains e = false := by
  unfold getRandomElement
  rw [List.head?_eq_none_iff, List.eq_nil_iff_forall_not_mem]
  refine forall_congr' fun e => ?_
  rw [mem_elementsIn horder, Bool.not_eq_true]

theorem getRandomElement_eq_some_iff (horder : order.Perm s.adds.entries) :
    s.getRandomElement order = some e ↔
    ∃ dots, (order.find? fun p => s.contains p.1) = some ⟨e, dots⟩ := by
  have hsame : ∀ p ∈ order, s.anyVisible p.2 = s.contains p.1 := by
    intro p hp
    have hlookup : s.adds.lookup p.1 = some p.2 := AList.mem_lookup_iff.mpr (horder.mem_iff.mp hp)
    unfold contains
    rw [hlookup]
    rfl
  unfold getRandomElement elementsIn
  rw [List.filter_congr hsame, List.head?_map, List.head?_filter, Option.map_eq_some_iff]
  constructor
  · rintro ⟨⟨e, dots⟩, hfind, rfl⟩
    exact ⟨dots, hfind⟩
  · rintro ⟨dots, hfind⟩
    exact ⟨_, hfind, rfl⟩

/-- The element shows a dot that is not a dot of `e` as well. -/
def StaysWithout (self : OrSet E) (e x : E) : Prop :=
  ∃ d, self.HasAdd x d ∧ d ∉ self.tombstones ∧ ¬ self.HasAdd e d

theorem contains_applyLocal_remove (s : OrSet E) (d : Dot) (e x : E) :
    (s.applyLocal d (.remove e)).contains x = true ↔ x ≠ e ∧ s.StaysWithout e x := by
  have htombs : ∀ a, a ∈ (s.applyLocal d (.remove e)).tombstones ↔
      s.HasAdd e a ∨ a ∈ s.tombstones := by
    intro a
    simp only [AList.mem_iff_lookup, lookup_tombstones_applyLocal_remove]
    by_cases h : s.HasAdd e a
    · simp [h]
    · simp [h]
  rw [contains_iff]
  simp only [hasAdd_applyLocal_remove, htombs, not_or]
  constructor
  · rintro ⟨a, ⟨ha, hne⟩, hnot, huntombed⟩
    exact ⟨hne, a, ha, huntombed, hnot⟩
  · rintro ⟨hne, a, ha, huntombed, hnot⟩
    exact ⟨a, ⟨ha, hne⟩, hnot, huntombed⟩

theorem StaysWithout.contains (h : s.StaysWithout e x) : s.contains x = true := by
  obtain ⟨d, hd, huntombed, -⟩ := h
  exact s.contains_iff x |>.mpr ⟨d, hd, huntombed⟩

theorem contains_of_getRandomElement (horder : order.Perm s.adds.entries)
    (h : s.getRandomElement order = some e) :
    s.contains e = true :=
  (mem_elementsIn horder).mp (List.mem_of_mem_head? h)

end OrSet

namespace CrdtEngine

variable {id : NodeId} (self : CrdtEngine String id) (registry : PeerRegistry)
  (choice : Option NodeId) (order : List (Sigma fun _ : String => HashSet Dot))

/-- The answer to `GetRandomElement`. -/
def randomElement : String := (self.replica.crdt.getRandomElement order).getD "error: empty crdt"

/-- A command with the engine's work on it, and the response to the client; `none` is an empty
command. -/
def handleCommand : Option ClientCommand → (CrdtEngine String id × Outbox String) × String
  | some (.add value) => (self.clientOperation registry choice (.add value), "ok")
  | some (.remove value) => (self.clientOperation registry choice (.remove value), "ok")
  | some .removeRandom =>
    let randomElement := self.randomElement order
    if startsWith randomElement "error:" then ((self, []), randomElement)
    else (self.clientOperation registry choice (.remove randomElement), "ok")
  | none => ((self, []), "error: empty command")

/-- What `RemoveRandom` is for: of a set that is not empty it takes out one element, leaves the
others as they were, and says ok; for an empty set it reports an error and changes nothing. -/
def RemovesOne : Prop :=
  let s := self.replica.crdt
  let handled := self.handleCommand registry choice order (some .removeRandom)
  let s' := handled.1.1.replica.crdt
  (s.isEmpty = false → handled.2 = "ok" ∧ ∃ e, s.contains e = true ∧ s'.contains e = false ∧
    ∀ x, x ≠ e → s'.contains x = s.contains x ∧ s'.adds.lookup x = s.adds.lookup x) ∧
  (s.isEmpty = true → startsWith handled.2 "error:" = true ∧ handled.1 = (self, []))

variable {self registry choice order}

theorem handleCommand_of_error {e : String} (he : self.replica.crdt.getRandomElement order = some e)
    (herror : startsWith e "error:" = true) :
    self.handleCommand registry choice order (some .removeRandom) = ((self, []), e) := by
  have hname : self.randomElement order = e := by
    unfold randomElement
    rw [he]
    rfl
  unfold handleCommand
  rw [hname]
  exact if_pos herror

theorem not_removesOne {e : String} (horder : order.Perm self.replica.crdt.adds.entries)
    (he : self.replica.crdt.getRandomElement order = some e)
    (herror : startsWith e "error:" = true) :
    ¬ self.RemovesOne registry choice order := by
  intro hremoves
  have hcontains := OrSet.contains_of_getRandomElement horder he
  obtain ⟨-, e', hbefore, hafter, -⟩ := hremoves.1 (OrSet.isEmpty_eq_false_of_contains hcontains)
  rw [handleCommand_of_error he herror, hbefore] at hafter
  cases hafter

theorem handleCommand_of_element {e : String}
    (he : self.replica.crdt.getRandomElement order = some e)
    (hplain : startsWith e "error:" = false) :
    self.handleCommand registry choice order (some .removeRandom) =
      (self.clientOperation registry choice (.remove e), "ok") := by
  have hname : self.randomElement order = e := by
    unfold randomElement
    rw [he]
    rfl
  unfold handleCommand
  rw [hname]
  exact if_neg (by rw [hplain]; exact Bool.false_ne_true)

theorem handleCommand_of_empty (he : self.replica.crdt.getRandomElement order = none) :
    self.handleCommand registry choice order (some .removeRandom) =
      ((self, []), "error: empty crdt") := by
  have hname : self.randomElement order = "error: empty crdt" := by
    unfold randomElement
    rw [he]
    rfl
  unfold handleCommand
  rw [hname]
  exact if_pos (by decide)

/-- **One element is removed exactly if** the first element of the map that is present does not
begin as an error does, and every other element that is present has a dot of its own. -/
theorem removesOne_iff (horder : order.Perm self.replica.crdt.adds.entries) :
    self.RemovesOne registry choice order ↔
      ∀ p, (order.find? fun p => self.replica.crdt.contains p.1) = some p →
        startsWith p.1 "error:" = false ∧
          ∀ x, x ≠ p.1 → self.replica.crdt.contains x = true →
          self.replica.crdt.StaysWithout p.1 x := by
  cases he : self.replica.crdt.getRandomElement order with
  | none =>
    have hempty := OrSet.isEmpty_iff.mpr ((OrSet.getRandomElement_eq_none_iff horder).mp he)
    have herror : startsWith "error: empty crdt" "error:" = true := by decide
    unfold RemovesOne
    rw [handleCommand_of_empty he]
    refine iff_of_true ⟨fun hne => ?_, fun _ => ⟨herror, rfl⟩⟩ fun p hp => ?_
    · rw [hne] at hempty
      cases hempty
    · have hfirst := (OrSet.getRandomElement_eq_some_iff horder).mpr ⟨p.2, hp⟩
      rw [he] at hfirst
      cases hfirst
  | some e =>
    obtain ⟨dots, hfirst⟩ := (OrSet.getRandomElement_eq_some_iff horder).mp he
    have hcontains := OrSet.contains_of_getRandomElement horder he
    have hne := OrSet.isEmpty_eq_false_of_contains hcontains
    have hremove := self.replica.crdt.contains_applyLocal_remove self.nextDot e
    constructor
    · intro hremoves p hp
      obtain rfl := Option.some.inj (hfirst.symm.trans hp)
      have hplain : startsWith e "error:" = false := by
        by_contra herror
        rw [Bool.not_eq_false] at herror
        exact not_removesOne horder he herror hremoves
      refine ⟨hplain, fun x hx hpresent => ?_⟩
      obtain ⟨-, e', hbefore, hafter, hothers⟩ := hremoves.1 hne
      rw [handleCommand_of_element he hplain] at hafter hothers
      -- the element that is removed is the one that was named
      have hself : (self.replica.crdt.applyLocal self.nextDot (.remove e)).contains e = false := by
        rw [← Bool.not_eq_true, hremove]
        exact fun h => h.1 rfl
      obtain rfl : e' = e := by
        by_contra hother
        have hsame := (hothers e (Ne.symm hother)).1
        rw [hcontains] at hsame
        exact Bool.false_ne_true (hself.symm.trans hsame)
      have hkept : (self.replica.crdt.applyLocal self.nextDot (.remove e')).contains x = true :=
        (hothers x hx).1.trans hpresent
      exact ((hremove x).mp hkept).2
    · intro hcondition
      obtain ⟨hplain, hown⟩ := hcondition _ hfirst
      unfold RemovesOne
      rw [handleCommand_of_element he hplain]
      refine ⟨fun _ => ⟨rfl, e, hcontains, ?_, fun x hx => ⟨?_, AList.lookup_erase_ne hx⟩⟩,
        fun hempty => ?_⟩
      · show (self.replica.crdt.applyLocal self.nextDot (.remove e)).contains e = false
        rw [← Bool.not_eq_true, hremove]
        exact fun hself => hself.1 rfl
      · show (self.replica.crdt.applyLocal self.nextDot (.remove e)).contains x =
          self.replica.crdt.contains x
        rw [Bool.eq_iff_iff, hremove]
        exact ⟨fun h => h.2.contains, fun h => ⟨hx, hown x hx h⟩⟩
      · rw [hne] at hempty
        cases hempty

end CrdtEngine

namespace Replicas

/-- **When `RemoveRandom` removes one element**, in every state of an engine and for every order of
the map: exactly if the first element that is present does not begin as an error does, and every
other element that is present has a dot of its own. The latter holds in every run of the replicas,
where no dot is with two elements. -/
theorem removeRandom_removes_one_iff (id : NodeId) (k : CrdtEngine String id)
    (order : List (Sigma fun _ : String => HashSet Dot))
    (horder : order.Perm k.replica.crdt.adds.entries) (registry : PeerRegistry)
    (choice : Option NodeId) :
    (k.RemovesOne registry choice order ↔
        ∀ p, (order.find? fun p => k.replica.crdt.contains p.1) = some p →
          startsWith p.1 "error:" = false ∧
            ∀ x, x ≠ p.1 → k.replica.crdt.contains x = true → k.replica.crdt.StaysWithout p.1 x) ∧
      ∀ crdtId members (c : Replicas String),
        Reachable step (fun _ _ => True) (start crdtId members) c →
        c.nodes.lookup id = some k →
          ∀ e x, x ≠ e → k.replica.crdt.contains x = true → k.replica.crdt.StaysWithout e x := by
  refine ⟨CrdtEngine.removesOne_iff horder, fun crdtId members c h hk e x hx hpresent => ?_⟩
  obtain ⟨d, hd, huntombed⟩ := (k.replica.crdt.contains_iff x).mp hpresent
  exact ⟨d, hd, huntombed, fun he => hx ((sound_of_reachable h).oneElement hk x e d hd he)⟩

/-- A client adds one element at `A`. -/
def oneAdd (value : String) : List (ReplicaLabel String) := [.clientOperation "A" (.add value)]

theorem removeRandom_removes_one_oneAdd :
    ∃ (c : Replicas String) (a : CrdtEngine String "A"),
      replay step (fun _ _ => True) (start "s" (AList.ofPairs [("A", false)]))
        (oneAdd "x") = some c ∧
      c.nodes.lookup "A" = some a ∧ a.replica.crdt.isEmpty = false ∧
      a.RemovesOne ∅ none a.replica.crdt.adds.entries := by
  have hrun :
    ((replay step (fun _ _ => True) (start "s" (AList.ofPairs [("A", false)])) (oneAdd "x")).bind
      fun c =>
      (c.nodes.lookup "A").map fun a =>
        (a.replica.crdt.isEmpty, a.replica.crdt.getRandomElement a.replica.crdt.adds.entries)) =
          some (false, some "x") := by decide +kernel
  obtain ⟨c, hc, hrun⟩ := Option.bind_eq_some_iff.mp hrun
  obtain ⟨a, ha, hx⟩ := Option.map_eq_some_iff.mp hrun
  obtain ⟨hne, hx⟩ := Prod.mk.inj hx
  refine ⟨c, a, hc, ha, hne, ?_⟩
  obtain ⟨hiff, hruns⟩ :=
    removeRandom_removes_one_iff "A" a a.replica.crdt.adds.entries (List.Perm.refl _) ∅ none
  apply hiff.mpr
  rintro ⟨e, dots⟩ hfirst
  refine ⟨?_, hruns "s" _ c (reachable_of_replay _ .start hc) ha e⟩
  have he := (OrSet.getRandomElement_eq_some_iff (List.Perm.refl _)).mpr ⟨dots, hfirst⟩
  obtain rfl := Option.some.inj (hx.symm.trans he)
  show startsWith "x" "error:" = false
  decide

/-- An element that begins as an error does is answered as if there had been an error, and stays in
the set. -/
theorem removeRandom_keeps_errorElement :
    ∃ (c : Replicas String) (a : CrdtEngine String "A"),
      replay step (fun _ _ => True) (start "s" (AList.ofPairs [("A", false)]))
        (oneAdd "error:x") = some c ∧
      c.nodes.lookup "A" = some a ∧ a.replica.crdt.isEmpty = false ∧
      a.handleCommand ∅ none a.replica.crdt.adds.entries (some .removeRandom) =
        ((a, []), "error:x") ∧
      ¬ a.RemovesOne ∅ none a.replica.crdt.adds.entries := by
  have hrun : ((replay step (fun _ _ => True) (start "s" (AList.ofPairs [("A", false)]))
      (oneAdd "error:x")).bind fun c => (c.nodes.lookup "A").map fun a =>
        (a.replica.crdt.isEmpty, a.replica.crdt.getRandomElement a.replica.crdt.adds.entries)) =
          some (false, some "error:x") := by decide +kernel
  obtain ⟨c, hc, hrun⟩ := Option.bind_eq_some_iff.mp hrun
  obtain ⟨a, ha, hx⟩ := Option.map_eq_some_iff.mp hrun
  obtain ⟨hne, hx⟩ := Prod.mk.inj hx
  have herror : startsWith "error:x" "error:" = true := by decide
  exact ⟨c, a, hc, ha, hne, CrdtEngine.handleCommand_of_error hx herror,
    CrdtEngine.not_removesOne (List.Perm.refl _) hx herror⟩

end Replicas

end ExperimentalCrdt
