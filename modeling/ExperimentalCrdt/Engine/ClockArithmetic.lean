import ExperimentalCrdt.Crdt.Codec
import ExperimentalCrdt.Engine.CrdtEngine
import ExperimentalCrdt.Lib.Checked
import ExperimentalCrdt.LogicalClocks.DotInvariant

/-!
# The clock in 64 bits

`event` adds 1 to a `u64`, and `merge` subtracts 1 from one. Here both are computed with checks
(`event?`, `merge?`), for an engine that takes client operations and the bytes of deltas
(`handle?`). Where nothing overflows the clock is the one of the natural numbers.

The subtraction never fails (`merge?_eq_some`). The addition fails after a delta that claims too
high a counter for the engine's own id: `clock_never_wraps_iff` says which inputs leave room enough.
-/

namespace ExperimentalCrdt

open Checked

namespace DotVersionVector

variable (d d' : DotVersionVector)

/-- `event`, with a check that the counter fits. -/
def event? (self : DotVersionVector) : Option DotVersionVector := do
  let context :=
    if 0 < self.dot.counter then
      self.context.upsert self.dot.nodeId fun e => max (e.getD 0) self.dot.counter
    else self.context
  let counter ← addU64 self.dot.counter 1
  some { dot := { self.dot with counter }, context }

/-- The body of the loop of `merge`, with a check that the difference is not below zero. -/
def mergeEntry? (self : DotVersionVector) (nid : NodeId) (remoteCounter : Nat) :
    Option DotVersionVector :=
  if nid = self.dot.nodeId then
    if remoteCounter < self.dot.counter then
      some { self with context := self.context.upsert nid fun e => max (e.getD 0) remoteCounter }
    else if self.dot.counter < remoteCounter then do
      let before ← sub remoteCounter 1
      some { dot := { self.dot with counter := remoteCounter }
             context := self.context.upsert nid fun e => max (e.getD 0) before }
    else some self
  else some { self with context := self.context.upsert nid fun e => max (e.getD 0) remoteCounter }

def merge? (self other : DotVersionVector) : Option DotVersionVector :=
  other.effectiveMap.entries.foldlM (fun d e => d.mergeEntry? e.1 e.2) self

theorem event?_eq_some (h : d.dot.counter + 1 < 2 ^ 64) : d.event? = some d.event := by
  unfold event?
  rw [addU64_eq_some h]
  rfl

theorem event?_eq_none (h : ¬ d.dot.counter + 1 < 2 ^ 64) : d.event? = none := by
  unfold event?
  rw [addU64_eq_none_iff.mpr (Nat.not_lt.mp h)]
  rfl

theorem mergeEntry?_eq_some (k : NodeId) (c : Nat) :
    d.mergeEntry? k c = some (d.mergeEntry k c) := by
  unfold mergeEntry? mergeEntry
  split_ifs with hk hlt hgt
  · rfl
  · -- a counter above another one is not 0
    rw [sub_eq_some (by omega)]
    rfl
  · rfl
  · rfl

theorem merge?_eq_some : d.merge? d' = some (d.merge d') :=
  foldlM_eq_some (fun s e _ => mergeEntry?_eq_some s e.1 e.2) d

end DotVersionVector

/-- What an engine is given: operations of its clients, and deltas as bytes. -/
inductive EngineInput where
  | clientOperation (op : OrSetOp String)
  | deltaResponse (crdtId : String) (payload : List UInt8) (knowledgeMatrix : Option MatrixClock)

namespace EngineInput

/-- How many dots are minted for an input. -/
def events : EngineInput → Nat
  | .clientOperation _ => 1
  | .deltaResponse _ _ _ => 0

/-- The counter of `id` that a delta claims; what is ignored claims none. -/
def claimed (id : NodeId) (crdtId : String) : EngineInput → Nat
  | .clientOperation _ => 0
  | .deltaResponse crdtId' payload _ =>
    if crdtId' ≠ crdtId then 0
    else
      match (OrSet.decodeDelta payload : Except CodecError (OrSetDelta String)) with
      | .error _ => 0
      | .ok delta => delta.causalContext.effectiveCounter id

end EngineInput

/-- The client operations among the inputs. -/
def clientOperations (inputs : List EngineInput) : Nat := (inputs.map EngineInput.events).sum

namespace CrdtEngine

variable {id : NodeId}

/-- One input; no value stands for an overflow of the clock. -/
def handle? (k : CrdtEngine String id) : EngineInput → Option (CrdtEngine String id)
  | .clientOperation op => do
    let _ ← k.replica.dvv.event?
    some (k.clientOperation ∅ none op).1
  | .deltaResponse crdtId payload knowledgeMatrix =>
    if crdtId ≠ k.crdtId then some k
    else
      match OrSet.decodeDelta payload with
      | .error _ => some k
      | .ok delta => do
        let _ ← k.replica.dvv.merge? delta.causalContext
        some (k.serverDelta ∅ none crdtId delta knowledgeMatrix).1

def run? (k : CrdtEngine String id) (inputs : List EngineInput) : Option (CrdtEngine String id) :=
  inputs.foldlM handle? k

/-- The latest own event of an engine. -/
def ownCounter (k : CrdtEngine String id) : Nat := k.replica.dvv.dot.counter

/-- The invariant of all runs: the dot is the greatest own counter that the engine holds, and a
`u64`. -/
structure ClockFits (k : CrdtEngine String id) : Prop where
  outside : k.replica.dvv.DotOutside
  fits : k.ownCounter < 2 ^ 64

variable {k k' : CrdtEngine String id}

theorem ClockFits.effectiveCounter_own (h : k.ClockFits) :
    k.replica.dvv.effectiveCounter id = k.ownCounter := by
  have hown := h.outside.effectiveCounter_own
  rw [k.replica.dvv_owner] at hown
  exact hown

theorem claimed_lt (id : NodeId) (crdtId : String) (input : EngineInput) :
    input.claimed id crdtId < 2 ^ 64 := by
  unfold EngineInput.claimed
  split
  · exact Nat.two_pow_pos 64
  · split
    · exact Nat.two_pow_pos 64
    · split
      · exact Nat.two_pow_pos 64
      · next delta hdecode =>
        have hfits := OrSet.decodeDelta_fits hdecode
        have hcontext : counterAt delta.context id < 2 ^ 64 := by
          unfold counterAt
          cases hlookup : delta.context.lookup id with
          | none => exact Nat.two_pow_pos 64
          | some c => exact hfits.context id c hlookup
        unfold DotVersionVector.effectiveCounter OrSetDelta.causalContext
        split
        · exact Nat.max_lt.mpr ⟨hcontext, hfits.dotCounter⟩
        · exact hcontext

theorem ClockFits.serverDelta (h : k.ClockFits) (delta : OrSetDelta String)
    (matrix : Option MatrixClock) (hclaim : delta.causalContext.effectiveCounter id < 2 ^ 64) :
    (k.serverDelta ∅ none k.crdtId delta matrix).1.ClockFits ∧
      (k.serverDelta ∅ none k.crdtId delta matrix).1.crdtId = k.crdtId ∧
      (k.serverDelta ∅ none k.crdtId delta matrix).1.ownCounter =
        max k.ownCounter (delta.causalContext.effectiveCounter id) := by
  have hdvv : (k.serverDelta ∅ none k.crdtId delta matrix).1.replica.dvv =
      k.replica.dvv.merge delta.causalContext := by
    unfold CrdtEngine.serverDelta
    rw [if_neg (not_not_intro rfl)]
    cases matrix <;> rfl
  have hid : (k.serverDelta ∅ none k.crdtId delta matrix).1.crdtId = k.crdtId := by
    unfold CrdtEngine.serverDelta
    rw [if_neg (not_not_intro rfl)]
    cases matrix <;> rfl
  have hout := h.outside.merge delta.causalContext
  have hown := hout.effectiveCounter_own
  rw [DotVersionVector.merge_dot_nodeId, k.replica.dvv_owner,
    DotVersionVector.effectiveCounter_merge,
    h.effectiveCounter_own] at hown
  have hcounter : (k.serverDelta ∅ none k.crdtId delta matrix).1.ownCounter =
      max k.ownCounter (delta.causalContext.effectiveCounter id) := by
    unfold ownCounter at hown ⊢
    rw [hdvv, hown]
  refine ⟨⟨?_, ?_⟩, hid, hcounter⟩
  · rw [hdvv]
    exact hout
  · have hfits := h.fits
    rw [hcounter]
    omega

/-- With room for the dot that it needs an input is handled, and the own counter goes up by that
dot, or to what the input claims. -/
theorem ClockFits.handle?_eq_some (h : k.ClockFits) {input : EngineInput}
    (hroom : k.ownCounter + input.events < 2 ^ 64) :
    ∃ k', k.handle? input = some k' ∧ k'.ClockFits ∧ k'.crdtId = k.crdtId ∧
      k'.ownCounter = max (k.ownCounter + input.events) (input.claimed id k.crdtId) := by
  have hunchanged : k.ownCounter = max (k.ownCounter + 0) 0 :=
    (Nat.max_eq_left (Nat.zero_le _)).symm
  cases input with
  | clientOperation op =>
    refine ⟨(k.clientOperation ∅ none op).1, ?_, ⟨h.outside.event, hroom⟩, rfl, ?_⟩
    · show (k.replica.dvv.event?.bind fun _ => some (k.clientOperation ∅ none op).1) = _
      rw [k.replica.dvv.event?_eq_some hroom]
      rfl
    · exact (Nat.max_eq_left (Nat.zero_le _)).symm
  | deltaResponse crdtId payload matrix =>
    have hlt := claimed_lt id k.crdtId (.deltaResponse crdtId payload matrix)
    unfold CrdtEngine.handle? EngineInput.events
    dsimp only [EngineInput.claimed] at hlt ⊢
    by_cases hid : crdtId = k.crdtId
    · subst hid
      rw [if_neg (not_not_intro rfl)] at hlt
      rw [if_neg (not_not_intro rfl), if_neg (not_not_intro rfl)]
      cases hdecode : (OrSet.decodeDelta payload : Except CodecError (OrSetDelta String)) with
      | error e => exact ⟨k, rfl, h, rfl, hunchanged⟩
      | ok delta =>
        rw [hdecode] at hlt
        obtain ⟨hclock, hcrdt, hcounter⟩ := h.serverDelta delta matrix hlt
        refine ⟨_, ?_, hclock, hcrdt, hcounter⟩
        dsimp only
        rw [k.replica.dvv.merge?_eq_some]
        rfl
    · rw [if_pos hid, if_pos hid]
      exact ⟨k, rfl, h, rfl, hunchanged⟩

theorem ClockFits.handle?_eq_none (h : k.ClockFits) {input : EngineInput}
    (hroom : ¬ k.ownCounter + input.events < 2 ^ 64) : k.handle? input = none := by
  cases input with
  | clientOperation op =>
    show (k.replica.dvv.event?.bind fun _ => some (k.clientOperation ∅ none op).1) = _
    rw [k.replica.dvv.event?_eq_none hroom]
    rfl
  | deltaResponse crdtId payload matrix => exact absurd h.fits hroom

/-! ## Runs -/

/-- After each delta there is room for the client operations that follow, above the counter that the
delta claims. -/
def RoomLeft (id : NodeId) (crdtId : String) : List EngineInput → Prop
  | [] => True
  | input :: inputs =>
    input.claimed id crdtId + clientOperations inputs < 2 ^ 64 ∧ RoomLeft id crdtId inputs

theorem roomLeft_cons {id : NodeId} {crdtId : String} {input : EngineInput}
    {inputs : List EngineInput} :
    RoomLeft id crdtId (input :: inputs) ↔
      input.claimed id crdtId + clientOperations inputs < 2 ^ 64 ∧ RoomLeft id crdtId inputs :=
  Iff.rfl

theorem clientOperations_cons (input : EngineInput) (inputs : List EngineInput) :
    clientOperations (input :: inputs) = input.events + clientOperations inputs := by
  unfold clientOperations
  rw [List.map_cons, List.sum_cons]

theorem ClockFits.run?_eq_some_iff (inputs : List EngineInput) :
    ∀ {k : CrdtEngine String id}, k.ClockFits →
    ((∃ k', k.run? inputs = some k') ↔
      k.ownCounter + clientOperations inputs < 2 ^ 64 ∧ RoomLeft id k.crdtId inputs) := by
  induction inputs with
  | nil => exact fun h => iff_of_true ⟨_, rfl⟩ ⟨h.fits, trivial⟩
  | cons input inputs ih =>
    intro k h
    unfold CrdtEngine.run?
    rw [List.foldlM_cons, clientOperations_cons]
    by_cases hroom : k.ownCounter + input.events < 2 ^ 64
    · obtain ⟨k₁, hk₁, hfits, hcrdt, hcounter⟩ := h.handle?_eq_some hroom
      have hrest := ih hfits
      rw [hcrdt, hcounter] at hrest
      rw [hk₁, roomLeft_cons]
      refine hrest.trans ?_
      constructor
      · rintro ⟨hmax, hleft⟩
        exact ⟨by omega, by omega, hleft⟩
      · rintro ⟨hown, hclaim, hleft⟩
        exact ⟨by omega, hleft⟩
    · rw [h.handle?_eq_none hroom]
      refine iff_of_false ?_ fun hall => hroom (by omega)
      rintro ⟨k', hk'⟩
      cases hk'

theorem ClockFits.run? (inputs : List EngineInput) : ∀ {k k' : CrdtEngine String id}, k.ClockFits →
    k.run? inputs = some k' → k'.ClockFits ∧ k.ownCounter ≤ k'.ownCounter := by
  induction inputs with
  | nil =>
    intro k k' h hrun
    obtain rfl := Option.some.inj hrun
    exact ⟨h, Nat.le_refl _⟩
  | cons input inputs ih =>
    intro k k' h hrun
    unfold CrdtEngine.run? at hrun
    rw [List.foldlM_cons] at hrun
    obtain ⟨k₁, hk₁, hrun⟩ := Option.bind_eq_some_iff.mp hrun
    have hroom : k.ownCounter + input.events < 2 ^ 64 := by
      by_contra hfull
      rw [h.handle?_eq_none hfull] at hk₁
      cases hk₁
    obtain ⟨k₂, hk₂, hfits, -, hcounter⟩ := h.handle?_eq_some hroom
    obtain rfl := Option.some.inj (hk₁.symm.trans hk₂)
    obtain ⟨hfits', hle⟩ := ih hfits hrun
    exact ⟨hfits', by omega⟩

/-- No operation of the clock overflows, and every client operation is given a dot above all own
counters that the engine has held. -/
def NeverWraps (start : CrdtEngine String id) (inputs : List EngineInput) : Prop :=
  (∃ k, start.run? inputs = some k) ∧
    ∀ earlier later op after k₀ k, inputs = earlier ++ later ++ .clientOperation op :: after →
      start.run? earlier = some k₀ → start.run? (earlier ++ later) = some k →
        k₀.replica.dvv.effectiveCounter id < k.nextDot.counter

/-- **The clock in 64 bits**, of every engine whose clock was made by events, merges and removals:
it never overflows, and hands out dots above all that it has held, exactly if there is room above
the own counter for all client operations, and above the claim of each delta that is admitted for
the client operations after it. -/
theorem clock_never_wraps_iff (k : CrdtEngine String id) (ops : List DotVersionVector.Operation)
    (hclock : k.replica.dvv = ops.foldl DotVersionVector.perform (.new id))
    (hfits : k.ownCounter < 2 ^ 64) (inputs : List EngineInput) :
    k.NeverWraps inputs ↔ k.ownCounter + clientOperations inputs < 2 ^ 64 ∧
    RoomLeft id k.crdtId inputs := by
  have hstart : k.ClockFits := by
    refine ⟨?_, hfits⟩
    rw [hclock]
    exact (DotVersionVector.run_invariant ops (DotVersionVector.dotOutside_new id)).1
  have hrun := hstart.run?_eq_some_iff inputs
  constructor
  · exact fun h => hrun.mp h.1
  · intro h
    refine ⟨hrun.mpr h, fun earlier later op after k₀ k₁ _ hk₀ hk₁ => ?_⟩
    obtain ⟨hfits₀, -⟩ := hstart.run? earlier hk₀
    have hlater : k₀.run? later = some k₁ := by
      unfold CrdtEngine.run? at hk₀ hk₁ ⊢
      rw [foldlM_append hk₀] at hk₁
      exact hk₁
    obtain ⟨-, hle⟩ := hfits₀.run? later hlater
    rw [hfits₀.effectiveCounter_own]
    exact Nat.lt_succ_of_le hle

/-- A delta with nothing but the greatest counter but one for `A`. -/
def highPayload : List UInt8 :=
  OrSet.encodeDelta
    ({ adds := [], tombstones := [], context := ∅, dotNode := "A", dotCounter := 2 ^ 64 - 2 } :
      OrSetDelta String)

/-- The delta leaves room for one operation before it and one after it. -/
theorem clock_never_wraps_highPayload :
    (new "s" false : CrdtEngine String "A").NeverWraps
      [.clientOperation (.add "x"), .deltaResponse "s" highPayload none,
        .clientOperation (.remove "x")] := by
  have hclaim : (EngineInput.deltaResponse "s" highPayload none).claimed "A" "s" = 2 ^ 64 - 2 :=
    by decide +kernel
  have hroom : RoomLeft "A" "s"
      [.clientOperation (.add "x"), .deltaResponse "s" highPayload none,
          .clientOperation (.remove "x")] := by
    refine ⟨by decide, ?_, by decide, trivial⟩
    rw [hclaim]
    decide
  exact (clock_never_wraps_iff (new "s" false) [] rfl (by decide) _).mpr ⟨by decide, hroom⟩

/-- A delta with nothing but the greatest counter for `A`. -/
def maximumPayload : List UInt8 :=
  OrSet.encodeDelta
    ({ adds := [], tombstones := [], context := ∅, dotNode := "A", dotCounter := 2 ^ 64 - 1 } :
      OrSetDelta String)

/-- The delta is accepted, and the next client operation at `A` overflows. -/
theorem clock_wraps_maximumPayload :
    (OrSet.decodeDelta maximumPayload : Except CodecError (OrSetDelta String)).isOk = true ∧
      ¬ (new "s" false : CrdtEngine String "A").NeverWraps
        [.deltaResponse "s" maximumPayload none, .clientOperation (.add "x")] := by
  have hwraps : ((new "s" false : CrdtEngine String "A").run?
      [.deltaResponse "s" maximumPayload none, .clientOperation (.add "x")]).isNone = true :=
        by decide +kernel
  refine ⟨by decide +kernel, fun h => ?_⟩
  obtain ⟨k, hk⟩ := h.1
  rw [hk] at hwraps
  cases hwraps

end CrdtEngine

end ExperimentalCrdt
