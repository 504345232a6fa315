import ExperimentalCrdt.Lib.Checked
import ExperimentalCrdt.Lib.HashMap
import ExperimentalCrdt.Lib.Wire

/-!
# Messages by their fields

A message is given by its fields and their numbers, in ascending order, as a declaration of the
message gives them (`Message.field`), or by its alternatives (`Message.alternative`). `Kind` is what
a value may be: a number, a flag, a text, or a message again. A field holds one that is left out at
its default, one that may be absent, or a map, whose entries are messages with the key under 1 and
the value under 2. A value of another type than its field is an error; only an entry of a map is
read as a text whatever type its key gives.

`Lawful` is what reading and writing owe each other: what is written reads back, what was read is in
range, and it can be written again in the room it had. Every kind is lawful, and so is what is put
together of lawful parts; `Message.Lawful.decode_encode` and `Message.Lawful.of_decode` are the two
directions for a whole message.
-/

namespace Wire

open Checked (foldlM_append)

/-- What may stand under one number: the values it is written as, and what a value that is read does
to it. -/
structure Field (V : Type) where
  default : V
  isMap : Bool
  values : V → List Value
  merge : Nat → V → Value → Option V

structure Message (M : Type) where
  empty : M
  maps : List Nat
  records : M → List Record
  mergeField : Nat → M → Record → Option M

/-- A value that is written: a number in range, or a text. -/
def Value.Plain : Value → Prop
  | .varint n => n < 2 ^ 64
  | .len _ => True
  | .i64 _ | .i32 _ | .group => False

/-- The length of a text fits. -/
def Value.Short : Value → Prop
  | .len b => b.length < 2 ^ 64
  | _ => True

theorem plain_of_value {maps : List Nat} {tag : Nat} {x : Value} (hpos : 1 ≤ tag)
    (hlt : tag < 2 ^ 29) (h : x.Plain) (hmaps : tag ∈ maps → ∃ b, x = .len b) :
    Plain maps (tag, x) := by
  cases x with
  | varint n =>
    refine ⟨hpos, hlt, h, fun hmem => ?_⟩
    obtain ⟨b, hb⟩ := hmaps hmem
    cases hb
  | len b => exact ⟨hpos, hlt⟩
  | i64 | group | i32 => exact False.elim h

theorem plain_of_maps {maps maps' : List Nat} {r : Record} (h : Plain maps r)
    (hmaps : r.1 ∈ maps' → r.1 ∈ maps) :
    Plain maps' r := by
  obtain ⟨tag, x⟩ := r
  cases x with
  | varint n => exact ⟨h.1, h.2.1, h.2.2.1, fun hmem => h.2.2.2 (hmaps hmem)⟩
  | len b => exact h
  | i64 | group | i32 => exact False.elim h

theorem short_of_mem {tag : Nat} {x : Value} {rs : List Record} (h : (tag, x) ∈ rs)
    (hlen : (write rs).length < 2 ^ 64) :
    x.Short := by
  cases x with
  | len b => exact Nat.lt_of_le_of_lt (length_le_of_mem h) hlen
  | _ => trivial

theorem size_singleton (tag : Nat) (x : Value) :
    (write ([x].map fun x => (tag, x))).length = (writeRecord (tag, x)).length := by
  rw [List.map_singleton, length_write_cons]
  rfl

namespace Field

variable {V : Type}

/-- How many bytes the field takes under a number. -/
def size (f : Field V) (tag : Nat) (v : V) : Nat :=
  (write ((f.values v).map fun x => (tag, x))).length

/-- Reading and writing agree on the values that satisfy `P`; `nesting` is how many messages stand
within each other. -/
structure Lawful (f : Field V) (P : V → Prop) (nesting : Nat) : Prop where
  default : P f.default
  values_default : f.values f.default = []
  plain : ∀ v, P v → ∀ x ∈ f.values v, x.Plain
  texts : f.isMap = true → ∀ v, ∀ x ∈ f.values v, ∃ b, x = .len b
  read : ∀ v, P v → (∀ x ∈ f.values v, x.Short) → ∀ depth, nesting ≤ depth →
    (f.values v).foldlM (f.merge depth) f.default = some v
  fits : ∀ depth tag v x v', Fits (tag, x) → P v → f.merge depth v x = some v' → P v'
  length : ∀ depth tag v x v', f.merge depth v x = some v' →
    f.size tag v' ≤ f.size tag v + (writeRecord (tag, x)).length

end Field

namespace Message

variable {M : Type}

def size (A : Message M) (m : M) : Nat := (write (A.records m)).length

def encode (A : Message M) (m : M) : List UInt8 := write (A.records m)

/-- A message of its own, in which `limit` messages may stand within each other. -/
def decode (A : Message M) (limit : Nat) (bytes : List UInt8) : Option M :=
  merge A.maps (A.mergeField limit) limit A.empty bytes

/-- `bound` is above the numbers of all fields. -/
structure Lawful (A : Message M) (P : M → Prop) (nesting bound : Nat) : Prop where
  empty : P A.empty
  records_empty : A.records A.empty = []
  maps_lt : ∀ tag ∈ A.maps, tag < bound
  tag_lt : ∀ m, ∀ r ∈ A.records m, r.1 < bound
  plain : ∀ m, P m → ∀ r ∈ A.records m, Plain A.maps r
  read : ∀ m, P m → A.size m < 2 ^ 64 → ∀ depth, nesting ≤ depth →
    (A.records m).foldlM (A.mergeField depth) A.empty = some m
  fits : ∀ depth m r m', Fits r → P m → A.mergeField depth m r = some m' → P m'
  length : ∀ depth m r m', A.mergeField depth m r = some m' →
    A.size m' ≤ A.size m + (writeRecord r).length

namespace Lawful

variable {A : Message M} {P : M → Prop} {nesting bound : Nat} {m m' : M}

theorem size_empty (h : A.Lawful P nesting bound) : A.size A.empty = 0 := by
  unfold Message.size
  rw [h.records_empty]
  rfl

theorem mergeMessage_encode (h : A.Lawful P nesting bound) (hm : P m) (hlen : A.size m < 2 ^ 64)
    {depth : Nat} (hdepth : nesting + 1 ≤ depth) :
    mergeMessage A.maps A.mergeField depth A.empty (.len (A.encode m)) = some m := by
  obtain ⟨depth, rfl⟩ : ∃ d, depth = d + 1 := ⟨depth - 1, by omega⟩
  unfold encode
  rw [mergeMessage_write (writable_of_plain (h.plain m hm) hlen)]
  exact h.read m hm hlen depth (by omega)

/-- **What is written reads back.** -/
theorem decode_encode (h : A.Lawful P nesting bound) {limit : Nat} (hlimit : nesting ≤ limit)
    (hm : P m) (hlen : (A.encode m).length < 2 ^ 64) : A.decode limit (A.encode m) = some m := by
  unfold decode encode
  rw [merge_write (writable_of_plain (h.plain m hm) hlen)]
  exact h.read m hm hlen limit hlimit

/-- **What was read** is in range, and takes no more room when it is written again. -/
theorem of_decode (h : A.Lawful P nesting bound) {limit : Nat} {bytes : List UInt8}
    (hdecode : A.decode limit bytes = some m) : P m ∧ (A.encode m).length ≤ bytes.length := by
  refine ⟨merge_invariant (h.fits limit) hdecode h.empty, ?_⟩
  have hlen := merge_length A.size (h.length limit) hdecode
  rw [h.size_empty, Nat.zero_add] at hlen
  exact hlen

end Lawful

/-! ## Fields of a message -/

/-- The message without fields. -/
def unit : Message Unit where
  empty := ()
  maps := []
  records _ := []
  mergeField _ _ _ := some ()

theorem lawful_unit (nesting bound : Nat) : unit.Lawful (fun _ => True) nesting bound where
  empty := trivial
  records_empty := rfl
  maps_lt _ htag := (List.not_mem_nil htag).elim
  tag_lt _ _ hr := (List.not_mem_nil hr).elim
  plain _ _ _ hr := (List.not_mem_nil hr).elim
  read _ _ _ _ _ := rfl
  fits _ _ _ _ _ _ _ := trivial
  length _ _ _ _ _ := Nat.zero_le _

/-- One more field. -/
def field {V : Type} (A : Message M) (tag : Nat) (f : Field V) : Message (M × V) where
  empty := (A.empty, f.default)
  maps := if f.isMap then tag :: A.maps else A.maps
  records m := A.records m.1 ++ (f.values m.2).map fun x => (tag, x)
  mergeField depth m r :=
    if r.1 = tag then (f.merge depth m.2 r.2).map fun v => (m.1, v)
    else (A.mergeField depth m.1 r).map fun a => (a, m.2)

section field

variable {V : Type} {A : Message M} {f : Field V} {tag depth : Nat}

theorem mem_maps_field {t : Nat} (h : t ∈ (A.field tag f).maps) :
    t ∈ A.maps ∨ t = tag ∧ f.isMap = true := by
  change t ∈ if f.isMap then tag :: A.maps else A.maps at h
  split at h
  · next hmap =>
    rcases List.mem_cons.mp h with rfl | hA
    · exact Or.inr ⟨rfl, hmap⟩
    · exact Or.inl hA
  · exact Or.inl h

theorem size_field (A : Message M) (tag : Nat) (f : Field V) (m : M × V) :
    (A.field tag f).size m = A.size m.1 + f.size tag m.2 :=
  length_write_append _ _

theorem foldlM_field_other {rs : List Record} (h : ∀ r ∈ rs, r.1 < tag) {m m' : M} (v : V)
    (hread : rs.foldlM (A.mergeField depth) m = some m') :
    rs.foldlM ((A.field tag f).mergeField depth) (m, v) = some (m', v) := by
  induction rs generalizing m with
  | nil =>
    obtain rfl := Option.some.inj hread
    rfl
  | cons r rs ih =>
    obtain ⟨hr, hrs⟩ := List.forall_mem_cons.mp h
    rw [List.foldlM_cons] at hread
    obtain ⟨m₁, hm₁, hrest⟩ := Option.bind_eq_some_iff.mp hread
    have hstep : (A.field tag f).mergeField depth (m, v) r = some (m₁, v) := by
      show (if r.1 = tag then _ else (A.mergeField depth m r).map fun a => (a, v)) = _
      rw [if_neg (Nat.ne_of_lt hr), hm₁]
      rfl
    rw [List.foldlM_cons, hstep]
    exact ih hrs hrest

theorem foldlM_field_own (m : M) {xs : List Value} {v v' : V}
    (hread : xs.foldlM (f.merge depth) v = some v') :
    (xs.map fun x => (tag, x)).foldlM ((A.field tag f).mergeField depth) (m, v) = some (m, v') := by
  induction xs generalizing v with
  | nil =>
    obtain rfl := Option.some.inj hread
    rfl
  | cons x xs ih =>
    rw [List.foldlM_cons] at hread
    obtain ⟨v₁, hv₁, hrest⟩ := Option.bind_eq_some_iff.mp hread
    have hstep : (A.field tag f).mergeField depth (m, v) (tag, x) = some (m, v₁) := by
      show (if tag = tag then (f.merge depth v x).map fun v => (m, v) else _) = _
      rw [if_pos rfl, hv₁]
      rfl
    rw [List.map_cons, List.foldlM_cons, hstep]
    exact ih hrest

theorem mergeField_eq_some {m m' : M × V} {r : Record}
    (h : (A.field tag f).mergeField depth m r = some m') :
    (r.1 = tag ∧ m'.1 = m.1 ∧ f.merge depth m.2 r.2 = some m'.2) ∨
      (m'.2 = m.2 ∧ A.mergeField depth m.1 r = some m'.1) := by
  change (if r.1 = tag then _ else _) = _ at h
  split at h
  · next htag =>
    obtain ⟨v, hv, rfl⟩ := Option.map_eq_some_iff.mp h
    exact Or.inl ⟨htag, rfl, hv⟩
  · obtain ⟨a, ha, rfl⟩ := Option.map_eq_some_iff.mp h
    exact Or.inr ⟨rfl, ha⟩

/-- **A message with one more lawful field is lawful**, if the number of the field is above those of
the others. -/
theorem Lawful.field {P : M → Prop} {Q : V → Prop} {nesting bound : Nat}
    (hA : A.Lawful P nesting bound) (hf : f.Lawful Q nesting) (hbound : bound ≤ tag)
    (hpos : 1 ≤ tag) (hlt : tag < 2 ^ 29) :
    (A.field tag f).Lawful (fun m => P m.1 ∧ Q m.2) nesting (tag + 1) where
  empty := ⟨hA.empty, hf.default⟩
  records_empty := by
    show A.records A.empty ++ (f.values f.default).map _ = []
    rw [hA.records_empty, hf.values_default]
    rfl
  maps_lt t ht := by
    rcases mem_maps_field ht with hA' | ⟨rfl, -⟩
    · have hlt := hA.maps_lt t hA'
      omega
    · exact Nat.lt_succ_self t
  tag_lt m := by
    refine List.forall_mem_append.mpr
      ⟨fun r hr => ?_, List.forall_mem_map.mpr fun x _ => Nat.lt_succ_self tag⟩
    have htag := hA.tag_lt m.1 r hr
    omega
  plain m hm := by
    refine List.forall_mem_append.mpr ⟨fun r hr => ?_, List.forall_mem_map.mpr fun x hx => ?_⟩
    · refine plain_of_maps (hA.plain m.1 hm.1 r hr) fun hmem =>
        (mem_maps_field hmem).resolve_right ?_
      have hother := hA.tag_lt m.1 r hr
      rintro ⟨heq, -⟩
      omega
    · refine plain_of_value hpos hlt (hf.plain m.2 hm.2 x hx) fun hmem => ?_
      rcases mem_maps_field hmem with hA' | ⟨-, hmap⟩
      · have hother := hA.maps_lt tag hA'
        omega
      · exact hf.texts hmap m.2 x hx
  read m hm hlen depth hdepth := by
    have hsize := size_field A tag f m
    have hother : ∀ r ∈ A.records m.1, r.1 < tag :=
      fun r hr => Nat.lt_of_lt_of_le (hA.tag_lt m.1 r hr) hbound
    have hshort : ∀ x ∈ f.values m.2, x.Short := by
      intro x hx
      exact short_of_mem (List.mem_append_right _ (List.mem_map_of_mem hx)) hlen
    have hrest := hA.read m.1 hm.1 (by omega) depth hdepth
    exact (foldlM_append (foldlM_field_other hother f.default hrest) _).trans
      (foldlM_field_own m.1 (hf.read m.2 hm.2 hshort depth hdepth))
  fits depth m r m' hr hm h := by
    rcases mergeField_eq_some h with ⟨-, heq, hv⟩ | ⟨heq, ha⟩
    · exact ⟨heq ▸ hm.1, hf.fits depth r.1 m.2 r.2 m'.2 hr hm.2 hv⟩
    · exact ⟨hA.fits depth m.1 r m'.1 hr hm.1 ha, heq ▸ hm.2⟩
  length := by
    rintro depth m ⟨tag', x⟩ m' h
    rw [size_field, size_field]
    rcases mergeField_eq_some h with ⟨htag, heq, hv⟩ | ⟨heq, ha⟩
    · obtain rfl : tag' = tag := htag
      have hlen := hf.length depth tag' m.2 x m'.2 hv
      rw [heq]
      omega
    · have hlen := hA.length depth m.1 (tag', x) m'.1 ha
      rw [heq]
      omega

end field

/-- The same message under other words. -/
def rename {N : Type} (A : Message M) (pack : M → N) (unpack : N → M) : Message N where
  empty := pack A.empty
  maps := A.maps
  records n := A.records (unpack n)
  mergeField depth n r := (A.mergeField depth (unpack n) r).map pack

theorem Lawful.rename {N : Type} {A : Message M} {P : M → Prop} {nesting bound : Nat}
    (h : A.Lawful P nesting bound) {pack : M → N} {unpack : N → M}
    (hunpack : ∀ m, unpack (pack m) = m) (hpack : ∀ n, pack (unpack n) = n) :
    (A.rename pack unpack).Lawful (fun n => P (unpack n)) nesting bound where
  empty := by
    show P (unpack (pack A.empty))
    rw [hunpack]
    exact h.empty
  records_empty := by
    show A.records (unpack (pack A.empty)) = []
    rw [hunpack]
    exact h.records_empty
  maps_lt := h.maps_lt
  tag_lt n := h.tag_lt (unpack n)
  plain n := h.plain (unpack n)
  read n hn hlen depth hdepth := by
    have hfold : ∀ (rs : List Record) m m', rs.foldlM (A.mergeField depth) m = some m' →
        rs.foldlM ((A.rename pack unpack).mergeField depth) (pack m) = some (pack m') := by
      intro rs
      induction rs with
      | nil =>
        intro m m' hread
        obtain rfl := Option.some.inj hread
        rfl
      | cons r rs ih =>
        intro m m' hread
        rw [List.foldlM_cons] at hread
        obtain ⟨m₁, hm₁, hrest⟩ := Option.bind_eq_some_iff.mp hread
        have hstep : (A.rename pack unpack).mergeField depth (pack m) r = some (pack m₁) := by
          show (A.mergeField depth (unpack (pack m)) r).map pack = _
          rw [hunpack, hm₁]
          rfl
        rw [List.foldlM_cons, hstep]
        exact ih m₁ m' hrest
    have hread := hfold _ _ _ (h.read (unpack n) hn hlen depth hdepth)
    rw [hpack] at hread
    exact hread
  fits depth n r n' hr hn heq := by
    obtain ⟨m', hm', rfl⟩ := Option.map_eq_some_iff.mp heq
    rw [hunpack]
    exact h.fits depth (unpack n) r m' hr hn hm'
  length depth n r n' heq := by
    obtain ⟨m', hm', rfl⟩ := Option.map_eq_some_iff.mp heq
    have hlen := h.length depth (unpack n) r m' hm'
    show A.size (unpack (pack m')) ≤ A.size (unpack n) + _
    rw [hunpack]
    exact hlen

theorem Lawful.congr {A : Message M} {P Q : M → Prop} {nesting bound : Nat}
    (h : A.Lawful P nesting bound) (hiff : ∀ m, P m ↔ Q m) : A.Lawful Q nesting bound := by
  obtain rfl : P = Q := funext fun m => propext (hiff m)
  exact h

end Message

/-! ## Kinds of values -/

/-- A kind of value: how it is written, and what a value that is read does to it. -/
structure Kind (V : Type) where
  default : V
  value : V → Value
  merge : Nat → V → Value → Option V

namespace Kind

variable {V : Type}

/-- How many bytes the value takes under a number. -/
def size (k : Kind V) (tag : Nat) (v : V) : Nat := (writeRecord (tag, k.value v)).length

structure Lawful (k : Kind V) (P : V → Prop) (nesting : Nat) : Prop where
  default : P k.default
  plain : ∀ v, P v → (k.value v).Plain
  read : ∀ v, P v → (k.value v).Short → ∀ depth, nesting ≤ depth →
    k.merge depth k.default (k.value v) = some v
  fits : ∀ depth tag v x v', Fits (tag, x) → P v → k.merge depth v x = some v' → P v'
  length_default : ∀ depth tag x v', k.merge depth k.default x = some v' →
    k.size tag v' ≤ (writeRecord (tag, x)).length
  length : ∀ depth tag v x v', k.merge depth v x = some v' →
    k.size tag v' ≤ k.size tag v + (writeRecord (tag, x)).length

/-- A value that is replaced by what is read. -/
def scalar (default : V) (toValue : V → Value) (ofValue : Value → Option V) : Kind V where
  default := default
  value := toValue
  merge _ _ x := ofValue x

theorem lawful_scalar {default : V} {toValue : V → Value} {ofValue : Value → Option V}
    {P : V → Prop} (nesting : Nat) (hdefault : P default) (hplain : ∀ v, P v → (toValue v).Plain)
    (hread : ∀ v, P v → ofValue (toValue v) = some v)
    (hfits : ∀ tag x v, Fits (tag, x) → ofValue x = some v → P v)
    (hlength : ∀ tag x v, ofValue x = some v →
      (writeRecord (tag, toValue v)).length ≤ (writeRecord (tag, x)).length) :
    (scalar default toValue ofValue).Lawful P nesting where
  default := hdefault
  plain := hplain
  read v hv _ _ _ := hread v hv
  fits _ tag _ x v' hx _ h := hfits tag x v' hx h
  length_default _ tag x v' h := hlength tag x v' h
  length _ tag _ x v' h := Nat.le_trans (hlength tag x v' h) (Nat.le_add_left _ _)

def uint64 : Kind Nat := scalar 0 .varint Value.uint64?

/-- What does not fit loses its high bits. -/
def uint32 : Kind Nat := scalar 0 .varint fun x => x.uint64?.map fun n => n % 2 ^ 32

def bool : Kind Bool := scalar false (fun b => .varint b.toNat) fun x =>
    x.uint64?.map fun n => n != 0

def bytes : Kind (List UInt8) := scalar [] .len Value.bytes?

def string : Kind String := scalar "" (fun s => .len (utf8 s)) Value.string?

/-- A message within a message; what is read is merged into it. -/
def message {M : Type} (A : Message M) : Kind M where
  default := A.empty
  value m := .len (A.encode m)
  merge := mergeMessage A.maps A.mergeField

theorem length_writeRecord_varint_mono (tag : Nat) {m n : Nat} (h : m ≤ n) :
    (writeRecord (tag, .varint m)).length ≤ (writeRecord (tag, .varint n)).length := by
  have hmono := length_writeVarint_mono h
  show (writeKey tag .varint ++ writeVarint m).length ≤
    (writeKey tag .varint ++ writeVarint n).length
  rw [List.length_append, List.length_append]
  omega

theorem lawful_uint64 (nesting : Nat) : uint64.Lawful (fun n => n < 2 ^ 64) nesting := by
  refine lawful_scalar nesting (Nat.two_pow_pos 64) (fun n hn => hn) (fun n _ => rfl)
    (fun tag x n hx h => ?_)
    (fun tag x n h => ?_)
  · rw [uint64?_eq_some.mp h] at hx
    exact hx
  · rw [uint64?_eq_some.mp h]

theorem lawful_uint32 (nesting : Nat) : uint32.Lawful (fun n => n < 2 ^ 32) nesting := by
  refine lawful_scalar nesting (Nat.two_pow_pos 32) (fun n hn => ?_) (fun n hn => ?_)
    (fun tag x n _ h => ?_)
    (fun tag x n h => ?_)
  · show n < 2 ^ 64
    omega
  · exact congrArg some (Nat.mod_eq_of_lt hn)
  · obtain ⟨k, -, rfl⟩ := Option.map_eq_some_iff.mp h
    exact Nat.mod_lt k (Nat.two_pow_pos 32)
  · obtain ⟨k, hk, rfl⟩ := Option.map_eq_some_iff.mp h
    rw [uint64?_eq_some.mp hk]
    exact length_writeRecord_varint_mono tag (Nat.mod_le k _)

theorem lawful_bool (nesting : Nat) : bool.Lawful (fun _ => True) nesting := by
  refine lawful_scalar nesting trivial (fun b _ => ?_) (fun b _ => ?_)
    (fun _ _ _ _ _ => trivial) (fun tag x b h => ?_)
  · show b.toNat < 2 ^ 64
    cases b <;> decide
  · cases b <;> rfl
  · obtain ⟨k, hk, rfl⟩ := Option.map_eq_some_iff.mp h
    rw [uint64?_eq_some.mp hk]
    refine length_writeRecord_varint_mono tag ?_
    cases k with
    | zero => exact Nat.le_refl 0
    | succ k => exact Nat.succ_le_succ (Nat.zero_le k)

theorem lawful_bytes (nesting : Nat) : bytes.Lawful (fun _ => True) nesting := by
  refine lawful_scalar nesting trivial (fun b _ => trivial) (fun b _ => rfl)
    (fun _ _ _ _ _ => trivial)
    (fun tag x b h => ?_)
  rw [bytes?_eq_some.mp h]

theorem lawful_string (nesting : Nat) : string.Lawful (fun _ => True) nesting := by
  refine lawful_scalar nesting trivial (fun s _ => trivial) (fun s _ => string?_eq_some.mpr rfl)
    (fun _ _ _ _ _ => trivial) (fun tag x s h => ?_)
  rw [string?_eq_some.mp h]

theorem lawful_message {M : Type} {A : Message M} {P : M → Prop} {nesting bound : Nat}
    (hA : A.Lawful P nesting bound) :
    (message A).Lawful P (nesting + 1) where
  default := hA.empty
  plain _ _ := trivial
  read m hm hshort depth hdepth := hA.mergeMessage_encode hm hshort hdepth
  fits _ _ _ _ _ _ hm h := mergeMessage_invariant hA.fits h hm
  length_default depth tag x m' h := by
    obtain ⟨b, rfl, hlen⟩ := mergeMessage_length A.size hA.length h
    change A.size m' ≤ A.size A.empty + b.length at hlen
    rw [hA.size_empty, Nat.zero_add] at hlen
    exact length_writeRecord_len_mono tag hlen
  length depth tag m x m' h := by
    obtain ⟨b, rfl, hlen⟩ := mergeMessage_length A.size hA.length h
    exact length_writeRecord_len_add tag hlen

end Kind

/-! ## Kinds of fields -/

namespace Field

section single

variable {V : Type} {k : Kind V} {P : V → Prop} {nesting : Nat}

/-- A value that is left out at its default. -/
def plain [DecidableEq V] (k : Kind V) : Field V where
  default := k.default
  isMap := false
  values v := if v = k.default then [] else [k.value v]
  merge := k.merge

theorem lawful_plain [DecidableEq V] (hk : k.Lawful P nesting) : (plain k).Lawful P nesting where
  default := hk.default
  values_default := if_pos rfl
  plain v hv := by
    show ∀ x ∈ if v = k.default then [] else [k.value v], x.Plain
    split
    · exact fun x hx => (List.not_mem_nil hx).elim
    · exact List.forall_mem_singleton.mpr (hk.plain v hv)
  texts h := Bool.noConfusion h
  read v hv hshort depth hdepth := by
    change ∀ x ∈ if v = k.default then [] else [k.value v], x.Short at hshort
    show (if v = k.default then [] else [k.value v]).foldlM (k.merge depth) k.default = some v
    split at hshort
    · next heq =>
      rw [if_pos heq, heq]
      rfl
    · next hne =>
      rw [if_neg hne]
      show k.merge depth k.default (k.value v) >>= pure = some v
      rw [hk.read v hv (hshort _ (List.mem_singleton_self _)) depth hdepth]
      rfl
  fits := hk.fits
  length depth tag v x v' h := by
    show (write ((if v' = k.default then [] else [k.value v']).map fun x => (tag, x))).length ≤
      (write ((if v = k.default then [] else [k.value v]).map fun x => (tag, x))).length + _
    have hafter := size_singleton tag (k.value v')
    by_cases hv' : v' = k.default
    · rw [if_pos hv']
      exact Nat.zero_le _
    · rw [if_neg hv', hafter]
      by_cases hv : v = k.default
      · subst hv
        rw [if_pos rfl]
        exact Nat.le_trans (hk.length_default depth tag x v' h) (Nat.le_add_left _ _)
      · rw [if_neg hv, size_singleton]
        exact hk.length depth tag v x v' h

/-- A value that may be absent. One that is there is written, also at its default. -/
def optional (k : Kind V) : Field (Option V) where
  default := none
  isMap := false
  values
    | none => []
    | some v => [k.value v]
  merge depth o x := (k.merge depth (o.getD k.default) x).map some

theorem lawful_optional (hk : k.Lawful P nesting) :
    (optional k).Lawful (fun o => ∀ v ∈ o, P v) nesting where
  default v hv := absurd hv (Option.not_mem_none v)
  values_default := rfl
  plain o ho := by
    cases o with
    | none => exact fun x hx => (List.not_mem_nil hx).elim
    | some v => exact List.forall_mem_singleton.mpr (hk.plain v (ho v rfl))
  texts h := Bool.noConfusion h
  read o ho hshort depth hdepth := by
    cases o with
    | none => rfl
    | some v =>
      show (k.merge depth k.default (k.value v)).map some >>= pure = _
      rw [hk.read v (ho v rfl) (hshort _ (List.mem_singleton_self _)) depth hdepth]
      rfl
  fits depth tag o x o' hx ho h := by
    obtain ⟨v, hv, rfl⟩ := Option.map_eq_some_iff.mp h
    have hbefore : P (o.getD k.default) := by
      cases o with
      | none => exact hk.default
      | some v₀ => exact ho v₀ rfl
    intro v' hv'
    obtain rfl := Option.some.inj hv'
    exact hk.fits depth tag _ x v hx hbefore hv
  length depth tag o x o' h := by
    obtain ⟨v, hv, rfl⟩ := Option.map_eq_some_iff.mp h
    have hafter := size_singleton tag (k.value v)
    cases o with
    | none =>
      have hlen := hk.length_default depth tag x v hv
      unfold Kind.size at hlen
      show (write ([k.value v].map fun x => (tag, x))).length ≤ 0 + _
      omega
    | some v₀ =>
      have hlen := hk.length depth tag v₀ x v hv
      have hbefore := size_singleton tag (k.value v₀)
      unfold Kind.size at hlen
      show (write ([k.value v].map fun x => (tag, x))).length ≤
        (write ([k.value v₀].map fun x => (tag, x))).length + _
      omega

end single

/-! ## Maps -/

section map

variable {K V : Type} [DecidableEq K] {A : Message (K × V)} {P : K × V → Prop} {nesting bound : Nat}

/-- A map is written entry by entry, from its end; an entry that is read is inserted. -/
def map (A : Message (K × V)) : Field (HashMap K V) where
  default := ∅
  isMap := true
  values m := m.toPairs.reverse.map fun e => .len (A.encode e)
  merge depth m x := (mergeMessage A.maps A.mergeField depth A.empty x).map fun e =>
    m.insert e.1 e.2

theorem size_map (tag : Nat) (m : HashMap K V) :
    (map A).size tag m = (write (m.toPairs.map fun e => (tag, .len (A.encode e)))).length := by
  have hperm : (m.toPairs.reverse.map fun e => (tag, Value.len (A.encode e))).Perm
      (m.toPairs.map fun e => (tag, Value.len (A.encode e))) := (List.reverse_perm _).map _
  unfold size
  show (write
    ((m.toPairs.reverse.map fun e => Value.len (A.encode e)).map fun x => (tag, x))).length = _
  rw [List.map_map]
  exact (hperm.flatMap_right writeRecord).length_eq

theorem lawful_map (hA : A.Lawful P nesting bound) :
    (map A).Lawful (fun m => ∀ k v, m.lookup k = some v → P (k, v)) (nesting + 1) where
  default k v h := absurd h (by simp [map])
  values_default := rfl
  plain m _ := List.forall_mem_map.mpr fun _ _ => trivial
  texts _ m := List.forall_mem_map.mpr fun e _ => ⟨A.encode e, rfl⟩
  read m hm hshort depth hdepth := by
    have hentry : ∀ e ∈ m.toPairs.reverse, ∀ acc : HashMap K V,
        (map A).merge depth acc (.len (A.encode e)) = some (acc.insert e.1 e.2) := by
      intro e he acc
      have hlen : A.size e < 2 ^ 64 := hshort _ (List.mem_map_of_mem he)
      have hfit : P e := hm e.1 e.2 (AList.mem_toPairs.mp (List.mem_reverse.mp he))
      show (mergeMessage A.maps A.mergeField depth A.empty (.len (A.encode e))).map _ = _
      rw [hA.mergeMessage_encode hfit hlen hdepth]
      rfl
    show (m.toPairs.reverse.map fun e => Value.len (A.encode e)).foldlM
      ((map A).merge depth) ∅ = some m
    rw [List.foldlM_map, Checked.foldlM_eq_some fun s e he => hentry e he s]
    exact congrArg some (AList.ofPairs_reverse_toPairs m)
  fits depth tag m x m' _ hm h := by
    obtain ⟨e, he, rfl⟩ := Option.map_eq_some_iff.mp h
    have hfit : P e := mergeMessage_invariant hA.fits he hA.empty
    intro k v hlookup
    rw [AList.lookup_insert_eq] at hlookup
    split at hlookup
    · next hk =>
      obtain rfl := Option.some.inj hlookup
      rw [hk]
      exact hfit
    · exact hm k v hlookup
  length depth tag m x m' h := by
    obtain ⟨e, he, rfl⟩ := Option.map_eq_some_iff.mp h
    obtain ⟨b, rfl, hlen⟩ := mergeMessage_length A.size hA.length he
    rw [hA.size_empty, Nat.zero_add] at hlen
    have hmono := length_writeRecord_len_mono tag (a := A.encode e) hlen
    have hsub : List.Sublist (AList.toPairs (m.erase e.1)) m.toPairs :=
      (List.kerase_sublist e.1 m.entries).map _
    have hle := length_write_sublist (hsub.map fun e => (tag, Value.len (A.encode e)))
    have hinsert : (m.insert e.1 e.2).toPairs = e :: AList.toPairs (m.erase e.1) := by
      unfold AList.toPairs
      rw [AList.entries_insert]
      rfl
    rw [size_map, size_map, hinsert, List.map_cons, length_write_cons]
    omega

end map

end Field

namespace Message

/-- The entry of a map: a key under 1 and a value under 2. -/
def entry {K V : Type} [DecidableEq K] [DecidableEq V] (key : Kind K) (value : Kind V) :
    Message (K × V) :=
  ((unit.field 1 (.plain key)).field 2 (.plain value)).rename (fun e => (e.1.2, e.2)) fun e =>
    (((), e.1), e.2)

theorem lawful_entry {K V : Type} [DecidableEq K] [DecidableEq V] {key : Kind K} {value : Kind V}
    {P : K → Prop} {Q : V → Prop} {nesting : Nat} (hkey : key.Lawful P nesting)
    (hvalue : value.Lawful Q nesting) :
    (entry key value).Lawful (fun e => P e.1 ∧ Q e.2) nesting 3 := by
  have hfirst := (lawful_unit nesting 1).field (Field.lawful_plain hkey)
    (Nat.le_refl 1) (by omega) (by omega)
  have hboth := hfirst.field (Field.lawful_plain hvalue) (Nat.le_refl 2) (by omega) (by omega)
  exact (hboth.rename (fun _ => rfl) fun _ => rfl).congr fun e => and_congr_left fun _ =>
    iff_of_eq (true_and _)

/-! ## Alternatives -/

/-- A choice with one alternative. -/
def oneof {V : Type} (tag : Nat) (k : Kind V) : Message (Option V) :=
  (unit.field tag (.optional k)).rename (fun m => m.2) fun o => ((), o)

theorem lawful_oneof {V : Type} {k : Kind V} {P : V → Prop} {nesting tag : Nat}
    (hk : k.Lawful P nesting) (hpos : 1 ≤ tag) (hlt : tag < 2 ^ 29) :
    (oneof tag k).Lawful (fun o => ∀ v ∈ o, P v) nesting (tag + 1) := by
  have hfield := (lawful_unit nesting 1).field (Field.lawful_optional hk) hpos hpos hlt
  exact (hfield.rename (fun _ => rfl) fun _ => rfl).congr fun o => iff_of_eq (true_and _)

/-- One more alternative of a choice. One that is read replaces another, and is merged into the
same. -/
def alternative {M V : Type} (A : Message (Option M)) (tag : Nat) (k : Kind V) :
    Message (Option (M ⊕ V)) where
  empty := none
  maps := A.maps
  records
    | none => []
    | some (.inl m) => A.records (some m)
    | some (.inr v) => [(tag, k.value v)]
  mergeField depth o r :=
    if r.1 = tag then (k.merge depth ((o.bind Sum.getRight?).getD k.default) r.2).map fun v =>
      some (.inr v)
    else (A.mergeField depth (o.bind Sum.getLeft?) r).map fun left =>
      match left with
      | some m => some (.inl m)
      | none => (o.bind Sum.getRight?).map .inr

section alternative

variable {M V : Type} {A : Message (Option M)} {k : Kind V} {P : M → Prop} {Q : V → Prop}
  {nesting bound tag depth : Nat} {o o' : Option (M ⊕ V)} {r : Record}

/-- The values that a choice may hold. -/
def Either (P : M → Prop) (Q : V → Prop) : M ⊕ V → Prop
  | .inl m => P m
  | .inr v => Q v

theorem mergeField_alternative_eq_some (h : (A.alternative tag k).mergeField depth o r = some o') :
    (∃ v, r.1 = tag ∧ k.merge depth ((o.bind Sum.getRight?).getD k.default) r.2 = some v ∧
      o' = some (.inr v)) ∨
      (∃ m, A.mergeField depth (o.bind Sum.getLeft?) r = some (some m) ∧ o' = some (.inl m)) ∨
        (A.mergeField depth (o.bind Sum.getLeft?) r = some none ∧
          o' = (o.bind Sum.getRight?).map .inr) := by
  change (if r.1 = tag then _ else _) = _ at h
  split at h
  · next htag =>
    obtain ⟨v, hv, rfl⟩ := Option.map_eq_some_iff.mp h
    exact Or.inl ⟨v, htag, hv, rfl⟩
  · obtain ⟨left, hleft, rfl⟩ := Option.map_eq_some_iff.mp h
    cases left with
    | some m => exact Or.inr (Or.inl ⟨m, hleft, rfl⟩)
    | none => exact Or.inr (Or.inr ⟨hleft, rfl⟩)

theorem foldlM_alternative {rs : List Record} (h : ∀ r ∈ rs, r.1 < tag) {left left' : Option M}
    (hread : rs.foldlM (A.mergeField depth) left = some left') :
    rs.foldlM ((A.alternative tag k).mergeField depth) (left.map Sum.inl) =
      some (left'.map Sum.inl) := by
  induction rs generalizing left with
  | nil =>
    obtain rfl := Option.some.inj hread
    rfl
  | cons r rs ih =>
    obtain ⟨hr, hrs⟩ := List.forall_mem_cons.mp h
    rw [List.foldlM_cons] at hread
    obtain ⟨left₁, hleft₁, hrest⟩ := Option.bind_eq_some_iff.mp hread
    have hstep : (A.alternative tag k).mergeField depth (left.map Sum.inl) r =
        some (left₁.map Sum.inl) := by
      have hbefore : (left.map Sum.inl : Option (M ⊕ V)).bind Sum.getLeft? = left :=
        by cases left <;> rfl
      have hright : (left.map Sum.inl : Option (M ⊕ V)).bind Sum.getRight? = none :=
        by cases left <;> rfl
      show (if r.1 = tag then _ else _) = _
      rw [if_neg (Nat.ne_of_lt hr), hbefore, hright, hleft₁]
      cases left₁ <;> rfl
    rw [List.foldlM_cons, hstep]
    exact ih hrs hrest

theorem Lawful.alternative (hA : A.Lawful (fun o => ∀ m ∈ o, P m) nesting bound)
    (hempty : A.empty = none) (hk : k.Lawful Q nesting) (hbound : bound ≤ tag) (hpos : 1 ≤ tag)
    (hlt : tag < 2 ^ 29) :
    (A.alternative tag k).Lawful (fun o => ∀ x ∈ o, Either P Q x) nesting (tag + 1) where
  empty x hx := absurd hx (Option.not_mem_none x)
  records_empty := rfl
  maps_lt t ht := by
    have hlt := hA.maps_lt t ht
    omega
  tag_lt o := by
    cases o with
    | none => exact fun r hr => (List.not_mem_nil hr).elim
    | some x =>
      cases x with
      | inl m =>
        intro r hr
        have htag := hA.tag_lt (some m) r hr
        omega
      | inr v => exact List.forall_mem_singleton.mpr (Nat.lt_succ_self tag)
  plain o ho := by
    cases o with
    | none => exact fun r hr => (List.not_mem_nil hr).elim
    | some x =>
      cases x with
      | inl m =>
        refine hA.plain (some m) fun m' hm' => ?_
        obtain rfl := Option.some.inj hm'
        exact ho _ rfl
      | inr v =>
        refine List.forall_mem_singleton.mpr
          (plain_of_value hpos hlt (hk.plain v (ho _ rfl)) fun hmem => ?_)
        have hother := hA.maps_lt tag hmem
        omega
  read o ho hlen depth hdepth := by
    cases o with
    | none => rfl
    | some x =>
      cases x with
      | inl m =>
        have hm : ∀ m' ∈ some m, P m' := by
          intro m' hm'
          obtain rfl := Option.some.inj hm'
          exact ho _ rfl
        have hother : ∀ r ∈ A.records (some m), r.1 < tag :=
          fun r hr => Nat.lt_of_lt_of_le (hA.tag_lt (some m) r hr) hbound
        have hread := hA.read (some m) hm hlen depth hdepth
        rw [hempty] at hread
        exact foldlM_alternative hother hread
      | inr v =>
        have hshort : (k.value v).Short := short_of_mem (List.mem_singleton_self _) hlen
        have hread := hk.read v (ho _ rfl) hshort depth hdepth
        show (if tag = tag then (k.merge depth k.default (k.value v)).map _ else _) >>= pure = _
        rw [if_pos rfl, hread]
        rfl
  fits depth o r o' hr ho h := by
    rcases mergeField_alternative_eq_some h with ⟨v, htag, hv, rfl⟩ | ⟨m, hm, rfl⟩ | ⟨-, rfl⟩
    · have hbefore : Q ((o.bind Sum.getRight?).getD k.default) := by
        rcases o with _ | m | v₀
        · exact hk.default
        · exact hk.default
        · exact ho _ rfl
      intro x hx
      obtain rfl := Option.some.inj hx
      exact hk.fits depth r.1 _ r.2 v hr hbefore hv
    · have hbefore : ∀ m' ∈ o.bind Sum.getLeft?, P m' := by
        intro m' hm'
        rcases o with _ | m₀ | v
        · cases hm'
        · obtain rfl := Option.some.inj hm'
          exact ho _ rfl
        · cases hm'
      have hafter := hA.fits depth _ r _ hr hbefore hm
      intro x hx
      obtain rfl := Option.some.inj hx
      exact hafter m rfl
    · intro x hx
      rcases o with _ | m | v
      · cases hx
      · cases hx
      · obtain rfl := Option.some.inj hx
        exact ho _ rfl
  length := by
    rintro depth o ⟨tag', x⟩ o' h
    have hright : ∀ v, (A.alternative tag k).size (some (.inr v)) = k.size tag v :=
      fun v => size_singleton tag (k.value v)
    have hsizeEmpty : A.size none = 0 := hempty ▸ hA.size_empty
    rcases mergeField_alternative_eq_some h with ⟨v, rfl, hv, rfl⟩ | ⟨m, hm, rfl⟩ | ⟨-, rfl⟩
    · rw [hright]
      rcases o with _ | m | v₀
      · exact Nat.le_trans (hk.length_default depth _ x v hv) (Nat.le_add_left _ _)
      · exact Nat.le_trans (hk.length_default depth _ x v hv) (Nat.le_add_left _ _)
      · rw [hright]
        exact hk.length depth _ v₀ x v hv
    · have hlen := hA.length depth _ _ _ hm
      show A.size (some m) ≤ _
      rcases o with _ | m₀ | v
      · show _ ≤ 0 + _
        change _ ≤ A.size none + _ at hlen
        omega
      · exact hlen
      · change _ ≤ A.size none + _ at hlen
        omega
    · rcases o with _ | m | v
      · exact Nat.zero_le _
      · exact Nat.zero_le _
      · exact Nat.le_add_right _ _

end alternative

end Message

end Wire
