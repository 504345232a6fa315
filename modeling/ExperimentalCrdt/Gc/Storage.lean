import ExperimentalCrdt.Crdt.OrSet
import Mathlib.Data.List.Sort

/-!
# The durable store of the GC protocol

`gc/storage.rs` and the parts of `peers/discovery.rs` the protocol reads: one bucket that holds the
epoch metadata, the epoch state, the GC intents, the final dots of departed nodes and the
registrations of live ones. Every function here is one storage call, atomic and successful; a call
that fails is the caller's business (`Gc/Coordinator.lean`) and leaves the bucket alone.

The JSON bodies are kept as the values they decode to. Registrations are kept as the node ids that
`list_live_node_ids` parses out of their keys, final dots as the pair their key is made of.
-/

namespace ExperimentalCrdt

structure EpochMetadata where
  epoch : Nat
  vStable : CausalContext
  obsoleteDots : HashSet NodeId
deriving DecidableEq

structure EpochState (E : Type) where
  epoch : Nat
  initiatorClock : CausalContext
  statePayload : OrSetDelta E

structure GcIntentRecord where
  epoch : Nat
  initiator : NodeId
deriving DecidableEq, Repr

/-- The delta that an empty payload decodes to. -/
def OrSetDelta.empty {E : Type} : OrSetDelta E :=
  { adds := [], tombstones := [], context := ∅, dotNode := "", dotCounter := 0 }

structure Storage (E : Type) where
  epochMetadata : Option EpochMetadata
  epochState : Option (EpochState E)
  gcIntents : HashMap Nat GcIntentRecord
  finalDots : List (NodeId × Nat)
  registrations : HashSet NodeId

namespace Storage

variable {E : Type}

/-- A fresh bucket in which the given nodes are registered. -/
def fresh (registrations : HashSet NodeId) : Storage E :=
  { epochMetadata := none, epochState := none, gcIntents := ∅, finalDots := [], registrations }

def readEpochMetadata (st : Storage E) : EpochMetadata :=
  st.epochMetadata.getD { epoch := 0, vStable := ∅, obsoleteDots := ∅ }

def readEpochState (st : Storage E) : EpochState E :=
  st.epochState.getD { epoch := 0, initiatorClock := ∅, statePayload := .empty }

def writeEpochMetadata (st : Storage E) (epochMetadata : EpochMetadata) : Storage E :=
  { st with epochMetadata := some epochMetadata }

def writeEpochState (st : Storage E) (epochState : EpochState E) : Storage E :=
  { st with epochState := some epochState }

/-- Put-if-absent: whether the intent object was created, and the bucket afterwards. -/
def claimGcIntent (st : Storage E) (epoch : Nat) (initiator : NodeId) : Bool × Storage E :=
  if epoch ∈ st.gcIntents then (false, st)
  else (true, { st with gcIntents := st.gcIntents.insert epoch ⟨epoch, initiator⟩ })

def readGcIntent (st : Storage E) (epoch : Nat) : Option GcIntentRecord := st.gcIntents.lookup epoch

def releaseGcIntent (st : Storage E) (epoch : Nat) : Storage E :=
  { st with gcIntents := st.gcIntents.erase epoch }

/-- The last component of the key of a final-dot object. -/
def finalDotKey (obj : NodeId × Nat) : String := obj.1 ++ "_" ++ toString obj.2 ++ ".json"

/-- The key splits at its underscores into a node id and a counter, or it is skipped. -/
def parseFinalDotKey (obj : NodeId × Nat) : Option (NodeId × Nat) :=
  if '_' ∈ obj.1.toList then none else some obj

/-- The objects are listed in key order and collected into a map. -/
def readFinalDots (st : Storage E) : HashMap NodeId Nat :=
  AList.ofPairs <|
    (st.finalDots.insertionSort fun a b => finalDotKey a ≤ finalDotKey b).filterMap parseFinalDotKey

/-- The membership provider: the registered node ids, sorted and without duplicates. -/
def liveMembers (st : Storage E) : List NodeId :=
  (st.registrations.keys.insertionSort fun a b => a ≤ b).dedup

/-- `Discovery::register`: store a registration key unless there is one. -/
def register (st : Storage E) (nodeId : NodeId) : Storage E :=
  if nodeId ∈ st.registrations then st
  else { st with registrations := st.registrations.insert nodeId () }

/-- The put of the final dot in `Discovery::deregister`. -/
def putFinalDot (st : Storage E) (nodeId : NodeId) (finalDot : Nat) : Storage E :=
  { st with finalDots := st.finalDots.insert (nodeId, finalDot) }

/-- The deletion of the registration keys in `Discovery::deregister`. -/
def deleteRegistration (st : Storage E) (nodeId : NodeId) : Storage E :=
  { st with registrations := st.registrations.erase nodeId }

variable (st : Storage E) (n k' : Nat) (id k : NodeId) (m : EpochMetadata) (s : EpochState E)

theorem mem_liveMembers : k ∈ st.liveMembers ↔ k ∈ st.registrations := by
  rw [liveMembers, List.mem_dedup, List.mem_insertionSort, ← AList.mem_keys]

theorem mem_register : k ∈ (st.register id).registrations ↔ k = id ∨ k ∈ st.registrations := by
  rw [register]
  split
  · next h =>
    refine ⟨Or.inr, ?_⟩
    rintro (rfl | hk)
    · exact h
    · exact hk
  · exact AList.mem_insert _

@[simp] theorem readEpochMetadata_write : (st.writeEpochMetadata m).readEpochMetadata = m := rfl
@[simp] theorem readEpochState_write : (st.writeEpochState s).readEpochState = s := rfl

@[simp] theorem register_epochMetadata : (st.register id).epochMetadata = st.epochMetadata := by
  rw [register]; split <;> rfl

@[simp] theorem register_epochState : (st.register id).epochState = st.epochState := by
  rw [register]; split <;> rfl

@[simp] theorem register_gcIntents : (st.register id).gcIntents = st.gcIntents := by
  rw [register]; split <;> rfl

@[simp] theorem register_finalDots : (st.register id).finalDots = st.finalDots := by
  rw [register]; split <;> rfl

theorem lookup_releaseGcIntent :
    (st.releaseGcIntent n).gcIntents.lookup k' = if k' = n then none else st.gcIntents.lookup k' :=
  AList.lookup_erase_eq _ _ _

end Storage

end ExperimentalCrdt
