import ExperimentalCrdt.Lib.Checked
import ExperimentalCrdt.Lib.HashMap
import ExperimentalCrdt.Lib.Wire

/-!
# The messages of the set

`proto/mod.rs`, as far as the OR-Set goes: which field of a message stands under which tag. The rest
is derived by `prost` and follows the wire format: a field at its default is left out, an optional
message is written even if it is empty, and so is the alternative of a `oneof`. Of several records
of one field the last one counts, but a message is merged, a repeated field extended and a map
inserted into; unknown fields are skipped. A field with a value of another type is an error, but for
an entry of a map, which is read as a message whatever type its key gives.
-/

namespace ExperimentalCrdt

open Wire
open Checked (foldlM_append)

/-- How deep messages may be nested. -/
def RECURSION_LIMIT : Nat := 100

structure ProtoDot where
  nodeId : String := ""
  counter : Nat := 0
deriving DecidableEq

structure ProtoElemDot where
  element : List UInt8 := []
  dot : Option ProtoDot := none
deriving DecidableEq

structure ProtoDotPair where
  addDot : Option ProtoDot := none
  removeDot : Option ProtoDot := none
deriving DecidableEq

structure ProtoOrSetDelta where
  adds : List ProtoElemDot := []
  tombstones : List ProtoDotPair := []
  context : HashMap String Nat := ∅
  dotNode : String := ""
  dotCounter : Nat := 0

inductive ProtoOrSetOp.Op where
  | addElement (element : List UInt8)
  | removeElement (element : List UInt8)
deriving DecidableEq

structure ProtoOrSetOp where
  op : Option ProtoOrSetOp.Op := none
deriving DecidableEq

namespace ProtoDot

def records (m : ProtoDot) : List Record := stringField 1 m.nodeId ++ uint64Field 2 m.counter

def mergeField (_ : Nat) (m : ProtoDot) : Record → Option ProtoDot
  | (1, value) => value.string?.map fun nodeId => { m with nodeId }
  | (2, value) => value.uint64?.map fun counter => { m with counter }
  | _ => some m

end ProtoDot

/-- An optional dot. -/
def dotField (tag : Nat) : Option ProtoDot → List Record
  | none => []
  | some dot => [messageField tag dot.records]

def mergeDot (depth : Nat) (dot : Option ProtoDot) (value : Value) : Option (Option ProtoDot) :=
  (mergeMessage [] ProtoDot.mergeField depth (dot.getD {}) value).map some

namespace ProtoElemDot

def records (m : ProtoElemDot) : List Record := bytesField 1 m.element ++ dotField 2 m.dot

def mergeField (depth : Nat) (m : ProtoElemDot) : Record → Option ProtoElemDot
  | (1, value) => value.bytes?.map fun element => { m with element }
  | (2, value) => (mergeDot depth m.dot value).map fun dot => { m with dot }
  | _ => some m

end ProtoElemDot

namespace ProtoDotPair

def records (m : ProtoDotPair) : List Record := dotField 1 m.addDot ++ dotField 2 m.removeDot

def mergeField (depth : Nat) (m : ProtoDotPair) : Record → Option ProtoDotPair
  | (1, value) => (mergeDot depth m.addDot value).map fun addDot => { m with addDot }
  | (2, value) => (mergeDot depth m.removeDot value).map fun removeDot => { m with removeDot }
  | _ => some m

end ProtoDotPair

namespace ProtoOrSetDelta

/-- An entry of the context is a message with the key under 1 and the value under 2, which is what a
dot is. -/
def entryField (entry : String × Nat) : Record :=
  messageField 3 (ProtoDot.mk entry.1 entry.2).records

def records (m : ProtoOrSetDelta) : List Record :=
  m.adds.map (fun add => messageField 1 add.records) ++
    m.tombstones.map (fun tombstone => messageField 2 tombstone.records) ++
      m.context.toPairs.map entryField ++ stringField 4 m.dotNode ++ uint64Field 5 m.dotCounter

def mergeField (depth : Nat) (m : ProtoOrSetDelta) : Record → Option ProtoOrSetDelta
  | (1, value) => (mergeMessage [] ProtoElemDot.mergeField depth {} value).map fun add =>
      { m with adds := m.adds ++ [add] }
  | (2, value) => (mergeMessage [] ProtoDotPair.mergeField depth {} value).map fun tombstone =>
      { m with tombstones := m.tombstones ++ [tombstone] }
  | (3, value) => (mergeMessage [] ProtoDot.mergeField depth {} value).map fun entry =>
      { m with context := m.context.insert entry.nodeId entry.counter }
  | (4, value) => value.string?.map fun dotNode => { m with dotNode }
  | (5, value) => value.uint64?.map fun dotCounter => { m with dotCounter }
  | _ => some m

/-- The context is a map. -/
def maps : List Nat := [3]

def encodeToVec (m : ProtoOrSetDelta) : List UInt8 := write m.records

def decode (bytes : List UInt8) : Option ProtoOrSetDelta :=
  merge maps (mergeField RECURSION_LIMIT) RECURSION_LIMIT {} bytes

end ProtoOrSetDelta

namespace ProtoOrSetOp

def records (m : ProtoOrSetOp) : List Record :=
  match m.op with
  | none => []
  | some (.addElement element) => [(1, .len element)]
  | some (.removeElement element) => [(2, .len element)]

def mergeField (_ : Nat) (m : ProtoOrSetOp) : Record → Option ProtoOrSetOp
  | (1, value) => value.bytes?.map fun element => { op := some (.addElement element) }
  | (2, value) => value.bytes?.map fun element => { op := some (.removeElement element) }
  | _ => some m

def encodeToVec (m : ProtoOrSetOp) : List UInt8 := write m.records

def decode (bytes : List UInt8) : Option ProtoOrSetOp :=
  merge [] (mergeField RECURSION_LIMIT) RECURSION_LIMIT {} bytes

end ProtoOrSetOp

/-! ## Dots -/

namespace ProtoDot

variable {m m' : ProtoDot} {depth : Nat} {r : Record}

/-- The counter is a `u64`. -/
def Fits (m : ProtoDot) : Prop := m.counter < 2 ^ 64

theorem plain_records (h : m.Fits) : ∀ r ∈ m.records, Plain [] r := by
  refine List.forall_mem_append.mpr ⟨?_, ?_⟩
  · exact plain_bytesField (by omega) (by omega) _
  · exact plain_uint64Field (by omega) (by omega) h List.not_mem_nil

theorem foldlM_records (m : ProtoDot) (depth : Nat) :
    m.records.foldlM (mergeField depth) {} = some m := by
  have hname : (stringField 1 m.nodeId).foldlM (mergeField depth) {} =
      some { nodeId := m.nodeId } :=
    foldlM_stringField (fun nodeId => ProtoDot.mk nodeId 0) (fun value => rfl) rfl m.nodeId
  have hcounter : (uint64Field 2 m.counter).foldlM (mergeField depth)
      { nodeId := m.nodeId } = some m :=
    foldlM_uint64Field (ProtoDot.mk m.nodeId) (fun value => rfl) rfl m.counter
  exact (foldlM_append hname _).trans hcounter

theorem mergeField_fits (hr : Wire.Fits r) (hm : m.Fits) (h : mergeField depth m r = some m') :
    m'.Fits := by
  unfold mergeField at h
  split at h
  · obtain ⟨nodeId, -, rfl⟩ := Option.map_eq_some_iff.mp h
    exact hm
  · obtain ⟨counter, hvalue, rfl⟩ := Option.map_eq_some_iff.mp h
    rw [uint64?_eq_some.mp hvalue] at hr
    exact hr
  · obtain rfl := Option.some.inj h
    exact hm

/-- How many bytes the dot takes. -/
def size (m : ProtoDot) : Nat := (write m.records).length

theorem mergeField_length (h : mergeField depth m r = some m') :
    m'.size ≤ m.size + (writeRecord r).length := by
  unfold mergeField at h
  split at h
  · obtain ⟨nodeId, hvalue, rfl⟩ := Option.map_eq_some_iff.mp h
    have hfield := length_write_bytesField_le 1 (utf8 nodeId)
    rw [string?_eq_some.mp hvalue]
    unfold size records stringField
    rw [length_write_append, length_write_append]
    dsimp only
    omega
  · obtain ⟨counter, hvalue, rfl⟩ := Option.map_eq_some_iff.mp h
    have hfield := length_write_uint64Field_le 2 counter
    rw [uint64?_eq_some.mp hvalue]
    unfold size records
    rw [length_write_append, length_write_append]
    dsimp only
    omega
  · obtain rfl := Option.some.inj h
    exact Nat.le_add_right _ _

end ProtoDot

section dotField

variable {dot dot' : Option ProtoDot} {depth : Nat} {value : Value}

theorem plain_dotField {tag : Nat} (hpos : 1 ≤ tag) (hlt : tag < 2 ^ 29) (dot : Option ProtoDot) :
    ∀ r ∈ dotField tag dot, Plain [] r := by
  cases dot with
  | none => exact fun r hr => (List.not_mem_nil hr).elim
  | some dot => exact List.forall_mem_singleton.mpr ⟨hpos, hlt⟩

theorem mergeDot_records {dot : ProtoDot} (h : dot.Fits)
    (hlen : (write dot.records).length < 2 ^ 64) :
    mergeDot (depth + 1) none (.len (write dot.records)) = some (some dot) := by
  unfold mergeDot
  rw [mergeMessage_write (writable_of_plain (ProtoDot.plain_records h) hlen)]
  exact congrArg (Option.map some) (dot.foldlM_records depth)

theorem mergeDot_fits (hdot : ∀ d ∈ dot, d.Fits) (h : mergeDot depth dot value = some dot') :
    ∀ d ∈ dot', d.Fits := by
  obtain ⟨d, hd, rfl⟩ := Option.map_eq_some_iff.mp h
  have hbefore : (dot.getD {}).Fits := by
    cases dot with
    | none => exact Nat.two_pow_pos 64
    | some d => exact hdot d rfl
  have hafter : d.Fits :=
    mergeMessage_invariant (fun _ _ _ _ => ProtoDot.mergeField_fits) hd hbefore
  intro d' hd'
  obtain rfl := Option.some.inj hd'
  exact hafter

theorem mergeDot_length (tag : Nat) (h : mergeDot depth dot value = some dot') :
    (write (dotField tag dot')).length ≤ (write (dotField tag dot)).length +
      (writeRecord (tag, value)).length := by
  obtain ⟨d, hd, rfl⟩ := Option.map_eq_some_iff.mp h
  obtain ⟨b, rfl, hlen⟩ :=
    mergeMessage_length ProtoDot.size (fun _ _ _ _ => ProtoDot.mergeField_length) hd
  cases dot with
  | none =>
    have hmono := length_writeRecord_len_mono tag (hlen.trans_eq (Nat.zero_add _))
    show (write [messageField tag d.records]).length ≤ 0 + _
    rw [length_write_cons]
    show _ + 0 ≤ _
    unfold messageField
    omega
  | some d₀ =>
    have hadd := length_writeRecord_len_add tag hlen
    show (write [messageField tag d.records]).length ≤
      (write [messageField tag d₀.records]).length + _
    rw [length_write_cons, length_write_cons]
    exact hadd

end dotField

/-! ## Adds and tombstones -/

theorem size_le_of_mem_dotField {tag : Nat} {dot : ProtoDot} {rs : List Record}
    (h : ∀ r ∈ dotField tag (some dot), r ∈ rs) : (write dot.records).length ≤ (write rs).length :=
  length_le_of_mem (h _ (List.mem_singleton_self _))

theorem foldlM_dotField {M : Type} {mergeField : M → Record → Option M} {depth : Nat} {m : M}
    (tag : Nat) (put : Option ProtoDot → M)
    (hput : ∀ value, mergeField m (tag, value) = (mergeDot (depth + 1) none value).map put)
    (hm : m = put none) (dot : Option ProtoDot) (hfits : ∀ d ∈ dot, d.Fits)
    (hlen : (write (dotField tag dot)).length < 2 ^ 64) :
    (dotField tag dot).foldlM mergeField m = some (put dot) := by
  cases dot with
  | none => exact congrArg some hm
  | some d =>
    have hsize :=
      size_le_of_mem_dotField (fun r hr => hr : ∀ r ∈ dotField tag (some d),
      r ∈ dotField tag (some d))
    show mergeField m (tag, .len (write d.records)) >>= pure = _
    rw [hput, mergeDot_records (hfits d rfl) (by omega)]
    rfl

namespace ProtoElemDot

variable {m m' : ProtoElemDot} {depth : Nat} {r : Record}

def Fits (m : ProtoElemDot) : Prop := ∀ dot ∈ m.dot, dot.Fits

def size (m : ProtoElemDot) : Nat := (write m.records).length

theorem plain_records (m : ProtoElemDot) : ∀ r ∈ m.records, Plain [] r := by
  refine List.forall_mem_append.mpr ⟨?_, ?_⟩
  · exact plain_bytesField (by omega) (by omega) _
  · exact plain_dotField (by omega) (by omega) _

theorem foldlM_records (h : m.Fits) (hlen : m.size < 2 ^ 64) :
    m.records.foldlM (mergeField (depth + 1)) {} = some m := by
  unfold size records at hlen
  rw [length_write_append] at hlen
  have helement : (bytesField 1 m.element).foldlM (mergeField (depth + 1)) {} =
      some { element := m.element } :=
    foldlM_bytesField (fun element => ProtoElemDot.mk element none) (fun value => rfl) rfl m.element
  have hdot : (dotField 2 m.dot).foldlM (mergeField (depth + 1)) { element := m.element } =
      some m :=
    foldlM_dotField 2 (ProtoElemDot.mk m.element) (fun value => rfl) rfl m.dot h (by omega)
  exact (foldlM_append helement _).trans hdot

theorem mergeField_fits (hm : m.Fits) (h : mergeField depth m r = some m') : m'.Fits := by
  unfold mergeField at h
  split at h
  · obtain ⟨element, -, rfl⟩ := Option.map_eq_some_iff.mp h
    exact hm
  · obtain ⟨dot, hdot, rfl⟩ := Option.map_eq_some_iff.mp h
    exact mergeDot_fits hm hdot
  · obtain rfl := Option.some.inj h
    exact hm

theorem mergeField_length (h : mergeField depth m r = some m') :
    m'.size ≤ m.size + (writeRecord r).length := by
  unfold mergeField at h
  split at h
  · obtain ⟨element, hvalue, rfl⟩ := Option.map_eq_some_iff.mp h
    have hfield := length_write_bytesField_le 1 element
    rw [bytes?_eq_some.mp hvalue]
    unfold size records
    rw [length_write_append, length_write_append]
    dsimp only
    omega
  · obtain ⟨dot, hdot, rfl⟩ := Option.map_eq_some_iff.mp h
    have hfield := mergeDot_length 2 hdot
    unfold size records
    rw [length_write_append, length_write_append]
    dsimp only
    omega
  · obtain rfl := Option.some.inj h
    exact Nat.le_add_right _ _

end ProtoElemDot

namespace ProtoDotPair

variable {m m' : ProtoDotPair} {depth : Nat} {r : Record}

def Fits (m : ProtoDotPair) : Prop := (∀ dot ∈ m.addDot, dot.Fits) ∧ ∀ dot ∈ m.removeDot, dot.Fits

def size (m : ProtoDotPair) : Nat := (write m.records).length

theorem plain_records (m : ProtoDotPair) : ∀ r ∈ m.records, Plain [] r := by
  refine List.forall_mem_append.mpr ⟨?_, ?_⟩
  · exact plain_dotField (by omega) (by omega) _
  · exact plain_dotField (by omega) (by omega) _

theorem foldlM_records (h : m.Fits) (hlen : m.size < 2 ^ 64) :
    m.records.foldlM (mergeField (depth + 1)) {} = some m := by
  unfold size records at hlen
  rw [length_write_append] at hlen
  have hadd : (dotField 1 m.addDot).foldlM (mergeField (depth + 1)) {} =
      some { addDot := m.addDot } :=
    foldlM_dotField 1 (fun addDot => ProtoDotPair.mk addDot none)
      (fun value => rfl) rfl m.addDot h.1 (by omega)
  have hremove : (dotField 2 m.removeDot).foldlM (mergeField (depth + 1))
      { addDot := m.addDot } = some m :=
    foldlM_dotField 2 (ProtoDotPair.mk m.addDot) (fun value => rfl) rfl m.removeDot h.2 (by omega)
  exact (foldlM_append hadd _).trans hremove

theorem mergeField_fits (hm : m.Fits) (h : mergeField depth m r = some m') : m'.Fits := by
  unfold mergeField at h
  split at h
  · obtain ⟨dot, hdot, rfl⟩ := Option.map_eq_some_iff.mp h
    exact ⟨mergeDot_fits hm.1 hdot, hm.2⟩
  · obtain ⟨dot, hdot, rfl⟩ := Option.map_eq_some_iff.mp h
    exact ⟨hm.1, mergeDot_fits hm.2 hdot⟩
  · obtain rfl := Option.some.inj h
    exact hm

theorem mergeField_length (h : mergeField depth m r = some m') :
    m'.size ≤ m.size + (writeRecord r).length := by
  unfold mergeField at h
  split at h
  · obtain ⟨dot, hdot, rfl⟩ := Option.map_eq_some_iff.mp h
    have hfield := mergeDot_length 1 hdot
    unfold size records
    rw [length_write_append, length_write_append]
    dsimp only
    omega
  · obtain ⟨dot, hdot, rfl⟩ := Option.map_eq_some_iff.mp h
    have hfield := mergeDot_length 2 hdot
    unfold size records
    rw [length_write_append, length_write_append]
    dsimp only
    omega
  · obtain rfl := Option.some.inj h
    exact Nat.le_add_right _ _

end ProtoDotPair

/-! ## Deltas -/

namespace ProtoOrSetDelta

variable {m m' : ProtoOrSetDelta} {depth : Nat} {r : Record}

/-- All counters are `u64`. -/
structure Fits (m : ProtoOrSetDelta) : Prop where
  adds : ∀ add ∈ m.adds, add.Fits
  tombstones : ∀ tombstone ∈ m.tombstones, tombstone.Fits
  context : ∀ n c, m.context.lookup n = some c → c < 2 ^ 64
  dotCounter : m.dotCounter < 2 ^ 64

def size (m : ProtoOrSetDelta) : Nat := m.encodeToVec.length

theorem plain_records (h : m.Fits) : ∀ r ∈ m.records, Plain maps r := by
  refine List.forall_mem_append.mpr
    ⟨?_, plain_uint64Field (by omega) (by omega) h.dotCounter (by decide)⟩
  refine List.forall_mem_append.mpr ⟨?_, plain_bytesField (by omega) (by omega) _⟩
  refine List.forall_mem_append.mpr ⟨List.forall_mem_append.mpr ⟨?_, ?_⟩, ?_⟩
  all_goals
    intro r hr
    obtain ⟨x, -, rfl⟩ := List.mem_map.mp hr
    exact ⟨by omega, by omega⟩

theorem foldl_concat {α : Type} (l : List α) : l.foldl (fun l' a => l' ++ [a]) [] = l := by
  induction l using List.reverseRecOn with
  | nil => rfl
  | append_singleton l a ih => rw [List.foldl_concat, ih]

theorem mergeField_add {add : ProtoElemDot} (h : add.Fits) (hlen : add.size < 2 ^ 64)
    (m : ProtoOrSetDelta) :
    mergeField (depth + 2) m (messageField 1 add.records) =
      some { m with adds := m.adds ++ [add] } := by
  have hread : mergeMessage [] ProtoElemDot.mergeField (depth + 2) {} (.len (write add.records)) =
      some add := by
    rw [mergeMessage_write (writable_of_plain add.plain_records hlen)]
    exact ProtoElemDot.foldlM_records h hlen
  exact congrArg (Option.map _) hread

theorem mergeField_tombstone {t : ProtoDotPair} (h : t.Fits) (hlen : t.size < 2 ^ 64)
    (m : ProtoOrSetDelta) :
    mergeField (depth + 2) m (messageField 2 t.records) =
      some { m with tombstones := m.tombstones ++ [t] } := by
  have hread : mergeMessage [] ProtoDotPair.mergeField (depth + 2) {} (.len (write t.records)) =
      some t := by
    rw [mergeMessage_write (writable_of_plain t.plain_records hlen)]
    exact ProtoDotPair.foldlM_records h hlen
  exact congrArg (Option.map _) hread

theorem mergeField_entry {n : String} {c : Nat} (h : c < 2 ^ 64)
    (hlen : (write (ProtoDot.mk n c).records).length < 2 ^ 64) (m : ProtoOrSetDelta) :
    mergeField (depth + 2) m (entryField (n, c)) =
      some { m with context := m.context.insert n c } := by
  have hread : mergeMessage [] ProtoDot.mergeField (depth + 2) {}
      (.len (write (ProtoDot.mk n c).records)) =
      some ⟨n, c⟩ := by
    have hfits : (ProtoDot.mk n c).Fits := h
    rw [mergeMessage_write (writable_of_plain (ProtoDot.plain_records hfits) hlen)]
    exact ProtoDot.foldlM_records _ _
  exact congrArg (Option.map _) hread

/-- What is encoded decodes again, with a context of the same entries. -/
theorem decode_encodeToVec (h : m.Fits) (hlen : m.encodeToVec.length < 2 ^ 64) :
    decode m.encodeToVec = some { m with context := AList.ofPairs m.context.toPairs } := by
  have hmem : ∀ tag rs, messageField tag rs ∈ m.records → (write rs).length < 2 ^ 64 := by
    intro tag rs hrs
    have hle : (write rs).length ≤ (write m.records).length := length_le_of_mem hrs
    exact Nat.lt_of_le_of_lt hle hlen
  have hadds : ∀ add ∈ m.adds, messageField 1 add.records ∈ m.records := by
    intro add hadd
    simp only [records, List.mem_append]
    exact Or.inl (Or.inl (Or.inl (Or.inl (List.mem_map_of_mem hadd))))
  have htombstones : ∀ t ∈ m.tombstones, messageField 2 t.records ∈ m.records := by
    intro t ht
    simp only [records, List.mem_append]
    exact Or.inl (Or.inl (Or.inl (Or.inr (List.mem_map_of_mem ht))))
  have hentries : ∀ e ∈ m.context.toPairs, entryField e ∈ m.records := by
    intro e he
    simp only [records, List.mem_append]
    exact Or.inl (Or.inl (Or.inr (List.mem_map_of_mem he)))
  have hreadAdds : (m.adds.map fun add => messageField 1 add.records).foldlM
      (mergeField RECURSION_LIMIT) {} =
      some { adds := m.adds } := by
    refine (foldlM_put (fun adds => ProtoOrSetDelta.mk adds [] ∅ "" 0)
      (fun adds add => adds ++ [add])
      (fun adds add hadd => ?_) []).trans ?_
    · exact mergeField_add (h.adds add hadd) (hmem _ _ (hadds add hadd)) _
    · rw [foldl_concat]
  have hreadTombstones : (m.tombstones.map fun t => messageField 2 t.records).foldlM
      (mergeField RECURSION_LIMIT)
      { adds := m.adds } = some { adds := m.adds, tombstones := m.tombstones } := by
    refine (foldlM_put (fun tombstones => ProtoOrSetDelta.mk m.adds tombstones ∅ "" 0)
      (fun tombstones t => tombstones ++ [t]) (fun tombstones t ht => ?_) []).trans ?_
    · exact mergeField_tombstone (h.tombstones t ht) (hmem _ _ (htombstones t ht)) _
    · rw [foldl_concat]
  have hreadContext : (m.context.toPairs.map entryField).foldlM (mergeField RECURSION_LIMIT)
      { adds := m.adds, tombstones := m.tombstones } =
        some { adds := m.adds, tombstones := m.tombstones,
               context := AList.ofPairs m.context.toPairs } := by
    refine foldlM_put (fun context => ProtoOrSetDelta.mk m.adds m.tombstones context "" 0)
      (fun context (e : String × Nat) => context.insert e.1 e.2) (fun context e he => ?_) ∅
    exact mergeField_entry (h.context e.1 e.2 (AList.mem_toPairs.mp he))
      (hmem _ _ (hentries e he)) _
  have hreadNode : (stringField 4 m.dotNode).foldlM (mergeField RECURSION_LIMIT)
      { adds := m.adds, tombstones := m.tombstones, context := AList.ofPairs m.context.toPairs } =
        some { m with context := AList.ofPairs m.context.toPairs, dotCounter := 0 } :=
    foldlM_stringField (fun dotNode => ProtoOrSetDelta.mk m.adds m.tombstones
      (AList.ofPairs m.context.toPairs) dotNode 0)
      (fun value => rfl) rfl m.dotNode
  have hreadCounter : (uint64Field 5 m.dotCounter).foldlM (mergeField RECURSION_LIMIT)
      { m with context := AList.ofPairs m.context.toPairs, dotCounter := 0 } =
        some { m with context := AList.ofPairs m.context.toPairs } :=
    foldlM_uint64Field
      (ProtoOrSetDelta.mk m.adds m.tombstones (AList.ofPairs m.context.toPairs) m.dotNode)
      (fun value => rfl) rfl m.dotCounter
  unfold decode encodeToVec
  rw [merge_write (writable_of_plain (plain_records h) hlen)]
  have hupToTombstones := (foldlM_append hreadAdds _).trans hreadTombstones
  have hupToContext := (foldlM_append hupToTombstones _).trans hreadContext
  have hupToNode := (foldlM_append hupToContext _).trans hreadNode
  exact (foldlM_append hupToNode _).trans hreadCounter

/-- An entry of the context is read also if its key gives it the type of a number. -/
example : (decode [24, 5, 10, 1, 65, 16, 7]).map (fun m => m.context.toPairs) = some [("A", 7)] :=
  by decide +kernel

theorem mergeField_fits (hr : Wire.Fits r) (hm : m.Fits) (h : mergeField depth m r = some m') :
    m'.Fits := by
  unfold mergeField at h
  split at h
  · obtain ⟨add, hadd, rfl⟩ := Option.map_eq_some_iff.mp h
    have hfits : add.Fits :=
      mergeMessage_invariant (fun _ _ _ _ _ => ProtoElemDot.mergeField_fits) hadd
      (fun dot hdot => absurd hdot (Option.not_mem_none dot))
    exact { hm with
      adds := List.forall_mem_append.mpr ⟨hm.adds, List.forall_mem_singleton.mpr hfits⟩ }
  · obtain ⟨t, ht, rfl⟩ := Option.map_eq_some_iff.mp h
    have hfits : t.Fits := mergeMessage_invariant (fun _ _ _ _ _ => ProtoDotPair.mergeField_fits) ht
      ⟨fun dot hdot => absurd hdot (Option.not_mem_none dot),
        fun dot hdot => absurd hdot (Option.not_mem_none dot)⟩
    have hsingle := List.forall_mem_singleton.mpr hfits
    exact { hm with tombstones := List.forall_mem_append.mpr ⟨hm.tombstones, hsingle⟩ }
  · obtain ⟨entry, hentry, rfl⟩ := Option.map_eq_some_iff.mp h
    have hfits : entry.Fits :=
      mergeMessage_invariant (fun _ _ _ _ => ProtoDot.mergeField_fits) hentry (Nat.two_pow_pos 64)
    refine { hm with context := fun n c hlookup => ?_ }
    rw [AList.lookup_insert_eq] at hlookup
    split at hlookup
    · obtain rfl := Option.some.inj hlookup
      exact hfits
    · exact hm.context n c hlookup
  · obtain ⟨dotNode, -, rfl⟩ := Option.map_eq_some_iff.mp h
    exact { hm with }
  · obtain ⟨dotCounter, hvalue, rfl⟩ := Option.map_eq_some_iff.mp h
    rw [uint64?_eq_some.mp hvalue] at hr
    exact { hm with dotCounter := hr }
  · obtain rfl := Option.some.inj h
    exact hm

theorem decode_fits {bytes : List UInt8} (h : decode bytes = some m) : m.Fits := by
  refine merge_invariant (fun _ _ _ => mergeField_fits) h ?_
  exact ⟨fun add hadd => (List.not_mem_nil hadd).elim, fun t ht => (List.not_mem_nil ht).elim,
    fun n c hlookup => absurd hlookup (by simp), Nat.two_pow_pos 64⟩

theorem size_eq (m : ProtoOrSetDelta) : m.size =
    (write (m.adds.map fun add => messageField 1 add.records)).length +
      (write (m.tombstones.map fun t => messageField 2 t.records)).length +
      (write (m.context.toPairs.map entryField)).length + (write (stringField 4 m.dotNode)).length +
      (write (uint64Field 5 m.dotCounter)).length := by
  unfold size encodeToVec records
  rw [length_write_append, length_write_append, length_write_append, length_write_append]

theorem length_write_insert (context : HashMap String Nat) (n : String) (c : Nat) :
    (write ((context.insert n c).toPairs.map entryField)).length ≤
      (write (context.toPairs.map entryField)).length +
        (writeRecord (entryField (n, c))).length := by
  have hsub : List.Sublist (AList.toPairs (context.erase n)) context.toPairs :=
    (List.kerase_sublist n context.entries).map _
  have hle := length_write_sublist (hsub.map entryField)
  have hinsert : (context.insert n c).toPairs = (n, c) :: AList.toPairs (context.erase n) := by
    unfold AList.toPairs
    rw [AList.entries_insert]
    rfl
  rw [hinsert, List.map_cons, length_write_cons]
  omega

theorem mergeField_length (h : mergeField depth m r = some m') :
    m'.size ≤ m.size + (writeRecord r).length := by
  rw [size_eq, size_eq]
  unfold mergeField at h
  split at h
  · obtain ⟨add, hadd, rfl⟩ := Option.map_eq_some_iff.mp h
    obtain ⟨b, rfl, hlen⟩ :=
      mergeMessage_length ProtoElemDot.size (fun _ _ _ _ => ProtoElemDot.mergeField_length) hadd
    have hmono : (writeRecord (messageField 1 add.records)).length ≤
        (writeRecord (1, .len b)).length :=
      length_writeRecord_len_mono 1 (hlen.trans_eq (Nat.zero_add _))
    have hwrite :=
      length_write_concat (fun add : ProtoElemDot => messageField 1 add.records) m.adds add
    dsimp only
    omega
  · obtain ⟨t, ht, rfl⟩ := Option.map_eq_some_iff.mp h
    obtain ⟨b, rfl, hlen⟩ :=
      mergeMessage_length ProtoDotPair.size (fun _ _ _ _ => ProtoDotPair.mergeField_length) ht
    have hmono : (writeRecord (messageField 2 t.records)).length ≤
        (writeRecord (2, .len b)).length :=
      length_writeRecord_len_mono 2 (hlen.trans_eq (Nat.zero_add _))
    have hwrite :=
      length_write_concat (fun t : ProtoDotPair => messageField 2 t.records) m.tombstones t
    dsimp only
    omega
  · obtain ⟨entry, hentry, rfl⟩ := Option.map_eq_some_iff.mp h
    obtain ⟨b, rfl, hlen⟩ :=
      mergeMessage_length ProtoDot.size (fun _ _ _ _ => ProtoDot.mergeField_length) hentry
    have hmono : (writeRecord (entryField (entry.nodeId, entry.counter))).length ≤
        (writeRecord (3, .len b)).length :=
      length_writeRecord_len_mono 3 (hlen.trans_eq (Nat.zero_add _))
    have hwrite := length_write_insert m.context entry.nodeId entry.counter
    dsimp only
    omega
  · obtain ⟨dotNode, hvalue, rfl⟩ := Option.map_eq_some_iff.mp h
    have hfield := length_write_bytesField_le 4 (utf8 dotNode)
    rw [string?_eq_some.mp hvalue]
    unfold stringField
    dsimp only
    omega
  · obtain ⟨dotCounter, hvalue, rfl⟩ := Option.map_eq_some_iff.mp h
    have hfield := length_write_uint64Field_le 5 dotCounter
    rw [uint64?_eq_some.mp hvalue]
    dsimp only
    omega
  · obtain rfl := Option.some.inj h
    omega

/-- What was decoded takes no more room when it is encoded again. -/
theorem decode_length {bytes : List UInt8} (h : decode bytes = some m) :
    m.encodeToVec.length ≤ bytes.length := by
  have hlen := merge_length size (fun _ _ _ => mergeField_length) h
  have hempty : size {} = 0 := rfl
  rw [hempty, Nat.zero_add] at hlen
  exact hlen

end ProtoOrSetDelta

/-! ## Operations -/

namespace ProtoOrSetOp

theorem decode_encodeToVec (m : ProtoOrSetOp) (hlen : m.encodeToVec.length < 2 ^ 64) :
    decode m.encodeToVec = some m := by
  have hplain : ∀ r ∈ m.records, Plain [] r := by
    unfold records
    split
    · exact fun r hr => (List.not_mem_nil hr).elim
    · exact List.forall_mem_singleton.mpr ⟨by omega, by omega⟩
    · exact List.forall_mem_singleton.mpr ⟨by omega, by omega⟩
  unfold decode encodeToVec
  rw [merge_write (writable_of_plain hplain hlen)]
  obtain ⟨op⟩ := m
  cases op with
  | none => rfl
  | some op => cases op <;> rfl

end ProtoOrSetOp

end ExperimentalCrdt
