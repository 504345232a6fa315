import ExperimentalCrdt.Gc.Storage

/-!
# The GC coordinator

`gc/coordinator.rs`. The coordinator of a replica keeps the epoch it has reached and, on a GC
replica, a matrix clock with one row of knowledge per known node. Its three async calls read and
write the bucket, and everything else in the cluster may move whenever one of them awaits. So
`initiate_gc` and `new_replica_bootstrap` are machines with one state per awaited call: `resume`
performs the call the machine waits for, runs the code up to the next one, and says what the call
returned when there is none. `observe_epoch_change` awaits one read only, so it is a function of
what the read returned.

A failed call (`ok = false`) leaves the bucket alone and makes the caller return an error, except
the releases of an intent, whose failure is logged and dropped.
-/

namespace ExperimentalCrdt

abbrev MatrixClock := HashMap NodeId CausalContext

/-- The connected peers, each with the GC flag it announced in its handshake. -/
abbrev PeerRegistry := HashMap NodeId Bool

def PeerRegistry.getAllNonGcReplicas (registry : PeerRegistry) : List NodeId :=
  (registry.entries.filter fun e => !e.2).map fun e => e.1

inductive GcInitiationAbortReason where
  | membershipChange
  | noProgress
  | concurrentInitiator
deriving DecidableEq, Repr

/-- The coordinator has a matrix clock exactly on a GC replica, so the early returns of the source
on `!config.gc_replica` are the `none` case of the clock. -/
structure GcCoordinator where
  epoch : Nat
  gcReplica : Bool
  matrixClock : Option MatrixClock
  matrixClock_isSome : matrixClock.isSome = gcReplica

def newMemberExists (old new : List NodeId) : Bool := new.any fun node => !decide (node ∈ old)

/-- Drop the given nodes from a vector, one by one. -/
def removeNodes (vv : CausalContext) (nodes : List NodeId) : CausalContext :=
  nodes.foldl (fun v p => v.erase p) vv

namespace GcCoordinator

def new (gcReplica : Bool) : GcCoordinator :=
  { epoch := 0
    gcReplica
    matrixClock := if gcReplica then some ∅ else none
    matrixClock_isSome := by cases gcReplica <;> rfl }

/-- Change the matrix clock, if there is one. -/
def modifyMatrix (self : GcCoordinator) (f : MatrixClock → MatrixClock) : GcCoordinator :=
  { self with
    matrixClock := self.matrixClock.map f
    matrixClock_isSome := by rw [Option.isSome_map, self.matrixClock_isSome] }

def getKnowledgeMatrix (self : GcCoordinator) (registry : PeerRegistry) : Option MatrixClock :=
  self.matrixClock.map fun mc =>
    registry.getAllNonGcReplicas.foldl
      (fun km node =>
        match mc.lookup node with
        | some ctx => km.insert node ctx
        | none => km) ∅

/-- The entry that `update_matrix_clock` stores for an incoming row. -/
def joinRow (incoming : CausalContext) : Option CausalContext → CausalContext
  | some own => vvJoin incoming own
  | none => incoming

def updateMatrixClock (self : GcCoordinator) (knowledgeMatrix : MatrixClock) : GcCoordinator :=
  self.modifyMatrix fun mc =>
    knowledgeMatrix.foldl (fun mc node incoming => mc.upsert node (joinRow incoming)) mc

def removeMatrixClockRow (self : GcCoordinator) (nodeId : NodeId) : GcCoordinator :=
  self.modifyMatrix fun mc => mc.erase nodeId

def removeMatrixClockColumn (self : GcCoordinator) (nodeId : NodeId) : GcCoordinator :=
  self.modifyMatrix fun mc => mc.mapValues fun context => context.erase nodeId

/-! ## The stable timestamp -/

/-- The loop over the members: the meet of their contexts, or `none` at a member that has none. -/
def meetMembers (contextOf : NodeId → Option CausalContext) :
    List NodeId → Option CausalContext → Option (Option CausalContext)
  | [], vLive => some vLive
  | p :: members, vLive =>
    match contextOf p with
    | none => none
    | some ctx => meetMembers contextOf members (some (vLive.elim ctx fun acc => vvMeet acc ctx))

/-- The nodes that the matrix or the frontier mentions although they are not listed. -/
def nonMembers (mc : MatrixClock) (vLive : CausalContext) (members : List NodeId) :
    HashSet NodeId :=
  AList.ofKeys ((mc.keys ++ vLive.keys).filter fun p => !decide (p ∈ members))

/-- The frontier and the obsolete nodes. The join of the rows that the source computes next to
their meet is not used, and left out. -/
def computeStableTimestamp (self : GcCoordinator) (nodeId : NodeId) (members : List NodeId)
    (finalDots : HashMap NodeId Nat) (selfClock : CausalContext) : CausalContext × HashSet NodeId :=
  match self.matrixClock with
  | none => (∅, ∅)
  | some mc =>
    match meetMembers (fun p => if p = nodeId then some selfClock else mc.lookup p) members none
        with
    | none => (∅, ∅)
    | some vLive? =>
      let vLive := vLive?.getD ∅
      let isObsolete := fun p => decide (finalDots.lookup p = vLive.lookup p)
      let departed := (nonMembers mc vLive members).keys
      let obsolete := departed.filter isObsolete
      let pending := departed.filter fun p => !isObsolete p
      (pending.foldl
          (fun v p =>
            match mc.lookup p with
            | some ctx => vvMeet v ctx
            | none => v) vLive,
        AList.ofKeys obsolete)

end GcCoordinator

/-! ## The state the GC calls work on -/

/-- What a replica of the given id holds; its vector counts that node's events. -/
structure Replica (E : Type) (id : NodeId) where
  gc : GcCoordinator
  crdt : OrSet E
  dvv : DotVersionVector
  dvv_owner : dvv.dot.nodeId = id

namespace Replica

variable {E : Type} [DecidableEq E] {id : NodeId}

/-- A fresh engine's replica. -/
def new (gcReplica : Bool) : Replica E id :=
  { gc := .new gcReplica, crdt := .new, dvv := .new id, dvv_owner := rfl }

/-- The loop body for one obsolete node, the same in `observe_epoch_change` and `initiate_gc`. -/
def forgetNode (r : Replica E id) (p : NodeId) : Replica E id :=
  { r with
    gc := (r.gc.removeMatrixClockRow p).removeMatrixClockColumn p
    dvv := r.dvv.remove p
    dvv_owner := r.dvv_owner }

/-- Drop every obsolete node from the vector and the matrix clock. -/
def forgetNodes (r : Replica E id) (obsolete : HashSet NodeId) : Replica E id :=
  obsolete.keys.foldl forgetNode r

/-- Reclaim the tombstones that a frontier covers. -/
def performGc (r : Replica E id) (vStable : CausalContext) : Replica E id :=
  { r with crdt := r.crdt.performGc (frontierDvv id vStable) }

def setEpoch (r : Replica E id) (epoch : Nat) : Replica E id := { r with gc := { r.gc with epoch } }

/-- `observe_epoch_change`, given what its read of the epoch metadata returned. -/
def observeEpochChange (r : Replica E id) (epochMetadata : EpochMetadata) : Replica E id :=
  if epochMetadata.epoch ≤ r.gc.epoch then r
  else ((r.performGc epochMetadata.vStable).setEpoch epochMetadata.epoch).forgetNodes
    epochMetadata.obsoleteDots

end Replica

/-- What an async call does next: wait for its next storage call, or return. -/
inductive Progress (P R : Type) where
  | await (pc : P)
  | returned (result : R)
deriving DecidableEq

/-- The error of a storage or membership call; no caller looks into it. -/
inductive StorageError where
  | failed
deriving DecidableEq, Repr

/-! ## `initiate_gc` -/

/-- The storage call `initiate_gc` waits for, with the locals it still needs. -/
inductive InitiateGc (E : Type) where
  | readEpochMetadata
  | liveMembers (n : Nat) (previousVStable : CausalContext)
  | claimGcIntent (n : Nat) (previousVStable : CausalContext) (m0 : List NodeId)
  | liveMembersAgain (n : Nat) (previousVStable : CausalContext) (m0 : List NodeId)
  | releaseMembershipChange (n : Nat)
  | readFinalDots (n : Nat) (previousVStable : CausalContext) (m1 : List NodeId)
  | releaseNoProgress (n : Nat)
  | writeEpochState (epochState : EpochState E) (epochMetadata : EpochMetadata)
  | writeEpochMetadata (epochMetadata : EpochMetadata)
  | releaseCommit (n : Nat)

abbrev InitiateGcResult := Except StorageError (Option GcInitiationAbortReason)

namespace InitiateGc

variable {E : Type} [DecidableEq E] {id : NodeId}

/-- The local part of a commit: forget the obsolete nodes, reclaim tombstones under what is left of
the frontier, and take the snapshot to publish. -/
def prepareCommit (r : Replica E id) (n : Nat) (vStable : CausalContext)
    (obsolete : HashSet NodeId) :
    Replica E id × EpochState E × EpochMetadata :=
  let vStable := removeNodes vStable obsolete.keys
  let r := (r.forgetNodes obsolete).performGc vStable
  (r,
    { epoch := n, initiatorClock := r.dvv.effectiveMap, statePayload := r.crdt.fullState r.dvv },
    { epoch := n, vStable, obsoleteDots := obsolete })

/-- What follows the read of the final dots: stop without progress, or get ready to commit. -/
def afterFinalDots (r : Replica E id) (n : Nat) (previousVStable : CausalContext)
    (m1 : List NodeId) (finalDots : HashMap NodeId Nat) : InitiateGc E × Replica E id :=
  let stable := r.gc.computeStableTimestamp id m1 finalDots r.dvv.effectiveMap
  if vvLeq stable.1 previousVStable then (.releaseNoProgress n, r)
  else
    let commit := prepareCommit r n stable.1 stable.2
    (.writeEpochState commit.2.1 commit.2.2, commit.1)

/-- Perform the awaited storage call, with the given outcome, and run to the next one. -/
def resume (pc : InitiateGc E) (ok : Bool) (r : Replica E id) (st : Storage E) :
    Progress (InitiateGc E) InitiateGcResult × Replica E id × Storage E :=
  match pc with
  | .readEpochMetadata =>
    if ok then
      let epochState := st.readEpochMetadata
      (.await (.liveMembers (epochState.epoch + 1) epochState.vStable), r, st)
    else (.returned (.error .failed), r, st)
  | .liveMembers n previousVStable =>
    if ok then (.await (.claimGcIntent n previousVStable st.liveMembers), r, st)
    else (.returned (.error .failed), r, st)
  | .claimGcIntent n previousVStable m0 =>
    if ok then
      match st.claimGcIntent n id with
      | (true, st) => (.await (.liveMembersAgain n previousVStable m0), r, st)
      | (false, st) => (.returned (.ok (some .concurrentInitiator)), r, st)
    else (.returned (.error .failed), r, st)
  | .liveMembersAgain n previousVStable m0 =>
    if ok then
      let m1 := st.liveMembers
      if newMemberExists m0 m1 then (.await (.releaseMembershipChange n), r, st)
      else (.await (.readFinalDots n previousVStable m1), r, st)
    else (.returned (.error .failed), r, st)
  | .releaseMembershipChange n =>
    (.returned (.ok (some .membershipChange)), r, if ok then st.releaseGcIntent n else st)
  | .readFinalDots n previousVStable m1 =>
    if ok then
      match afterFinalDots r n previousVStable m1 st.readFinalDots with
      | (pc, r) => (.await pc, r, st)
    else (.returned (.error .failed), r, st)
  | .releaseNoProgress n =>
    (.returned (.ok (some .noProgress)), r, if ok then st.releaseGcIntent n else st)
  | .writeEpochState epochState epochMetadata =>
    if ok then (.await (.writeEpochMetadata epochMetadata), r, st.writeEpochState epochState)
    else (.returned (.error .failed), r, st)
  | .writeEpochMetadata epochMetadata =>
    if ok then
      (.await (.releaseCommit epochMetadata.epoch), r.setEpoch epochMetadata.epoch,
        st.writeEpochMetadata epochMetadata)
    else (.returned (.error .failed), r, st)
  | .releaseCommit n => (.returned (.ok none), r, if ok then st.releaseGcIntent n else st)

variable (pc : InitiateGc E) (r : Replica E id) (st : Storage E)

omit [DecidableEq E] in
theorem resume_failed : ∃ result, pc.resume false r st = (.returned result, r, st) := by
  cases pc <;> exact ⟨_, rfl⟩

omit [DecidableEq E] in
theorem resume_claim (n : Nat) (previousVStable : CausalContext) (m0 : List NodeId) :
    (n ∈ st.gcIntents ∧
      ∃ result, resume (.claimGcIntent n previousVStable m0) true r st =
        (.returned result, r, st)) ∨
    (n ∉ st.gcIntents ∧ resume (.claimGcIntent n previousVStable m0) true r st =
      (.await (.liveMembersAgain n previousVStable m0), r,
        { st with gcIntents := st.gcIntents.insert n ⟨n, id⟩ })) := by
  simp only [resume, if_true, Storage.claimGcIntent]
  by_cases hn : n ∈ st.gcIntents
  · exact Or.inl ⟨hn, _, by rw [if_pos hn]⟩
  · exact Or.inr ⟨hn, by rw [if_neg hn]⟩

omit [DecidableEq E] in
theorem resume_again (n : Nat) (previousVStable : CausalContext) (m0 : List NodeId) :
    resume (.liveMembersAgain n previousVStable m0) true r st =
      (.await (.releaseMembershipChange n), r, st) ∨
      resume (.liveMembersAgain n previousVStable m0) true r st =
        (.await (.readFinalDots n previousVStable st.liveMembers), r, st) := by
  simp only [resume, if_true]
  split
  · exact Or.inl rfl
  · exact Or.inr rfl

end InitiateGc

/-! ## `new_replica_bootstrap` -/

/-- The storage call `new_replica_bootstrap` waits for. The sleeps between polls are not calls and
take no step of their own. -/
inductive NewReplicaBootstrap where
  | readEpochMetadata
  | readGcIntent (currentEpoch : Nat)
  | pollEpochMetadata (currentEpoch nextEpoch : Nat)
  | pollGcIntent (currentEpoch nextEpoch newEpoch : Nat)
  | readEpochState (currentEpoch : Nat)
deriving DecidableEq, Repr

namespace NewReplicaBootstrap

variable {E : Type} [DecidableEq E] {id : NodeId}

/-- Take over a published snapshot and the clock it was taken under. -/
def adopt (r : Replica E id) (epochState : EpochState E) (currentEpoch : Nat) : Replica E id :=
  Replica.setEpoch
    { r with
      crdt := r.crdt.mergeDelta epochState.statePayload
      dvv := r.dvv.merge (frontierDvv id epochState.initiatorClock)
      dvv_owner := (r.dvv.merge_dot_nodeId _).trans r.dvv_owner } currentEpoch

/-- Perform the awaited read, with the given outcome, and run to the next one. -/
def resume (pc : NewReplicaBootstrap) (ok : Bool) (r : Replica E id) (st : Storage E) :
    Progress NewReplicaBootstrap (Except StorageError Unit) × Replica E id :=
  if ok then
    match pc with
    | .readEpochMetadata => (.await (.readGcIntent st.readEpochMetadata.epoch), r)
    | .readGcIntent currentEpoch =>
      if (st.readGcIntent (currentEpoch + 1)).isSome then
        (.await (.pollEpochMetadata currentEpoch (currentEpoch + 1)), r)
      else (.await (.readEpochState currentEpoch), r)
    | .pollEpochMetadata currentEpoch nextEpoch =>
      (.await (.pollGcIntent currentEpoch nextEpoch st.readEpochMetadata.epoch), r)
    | .pollGcIntent currentEpoch nextEpoch newEpoch =>
      if currentEpoch < newEpoch ∨ (st.readGcIntent nextEpoch).isNone then
        (.await (.readEpochState newEpoch), r)
      else (.await (.pollEpochMetadata currentEpoch nextEpoch), r)
    | .readEpochState currentEpoch =>
      if st.readEpochState.epoch = currentEpoch then
        (.returned (.ok ()), adopt r st.readEpochState currentEpoch)
      else (.await (.readEpochState currentEpoch), r)
  else (.returned (.error .failed), r)

end NewReplicaBootstrap

end ExperimentalCrdt
