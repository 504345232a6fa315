import Mathlib.Algebra.Order.Ring.Nat
import Mathlib.Data.List.Flatten
import Mathlib.Tactic.Ring

/-!
# Records on the wire

The format of protocol buffers: a message is a list of records, each with the number of a field and
a value that is a number or a text of bytes. Numbers take seven bits a byte, the low ones first; a
reader takes at most ten bytes and no number above `2 ^ 64`. Values of a fixed width and groups are
read, so that a message with fields of another program can be gone through, but nothing here writes
them.

The key of a record says of what type its value is. Some fields of a message are read as a text
whatever their key says: their numbers are the `maps` of the message.

`records_write` says that what is written reads back. `sum_size_le_of_records` says that nothing is
written shorter than by `write`, so what was read can be written again in the room it had.
-/

namespace Wire

/-! ## Numbers -/

def writeVarint (n : Nat) : List UInt8 :=
  if n < 128 then [UInt8.ofNat n] else UInt8.ofNat (n % 128 + 128) :: writeVarint (n / 128)

/-- A number of at most `k` bytes, and what follows it. Of a tenth byte only the lowest bit is
left. -/
def readVarintUpTo : Nat → List UInt8 → Option (Nat × List UInt8)
  | 0, _ => none
  | _ + 1, [] => none
  | k + 1, b :: bytes =>
    if b.toNat < 128 then
      if k = 0 ∧ 2 ≤ b.toNat then none else some (b.toNat, bytes)
    else do
      let (high, rest) ← readVarintUpTo k bytes
      some (b.toNat - 128 + 128 * high, rest)

def readVarint (bytes : List UInt8) : Option (Nat × List UInt8) := readVarintUpTo 10 bytes

theorem writeVarint_of_lt {n : Nat} (h : n < 128) : writeVarint n = [UInt8.ofNat n] := by
  rw [writeVarint, if_pos h]

theorem writeVarint_of_le {n : Nat} (h : 128 ≤ n) :
    writeVarint n = UInt8.ofNat (n % 128 + 128) :: writeVarint (n / 128) := by
  rw [writeVarint, if_neg (by omega)]

theorem length_writeVarint_of_lt {n : Nat} (h : n < 128) : (writeVarint n).length = 1 := by
  rw [writeVarint_of_lt h]
  rfl

theorem length_writeVarint_of_le {n : Nat} (h : 128 ≤ n) :
    (writeVarint n).length = (writeVarint (n / 128)).length + 1 := by
  rw [writeVarint_of_le h, List.length_cons]

theorem length_writeVarint_pos (n : Nat) : 1 ≤ (writeVarint n).length := by
  by_cases h : n < 128
  · rw [length_writeVarint_of_lt h]
  · rw [length_writeVarint_of_le (by omega)]
    omega

theorem length_writeVarint_le_succ (n : Nat) :
    (writeVarint n).length ≤ (writeVarint (n / 128)).length + 1 := by
  by_cases h : n < 128
  · rw [length_writeVarint_of_lt h]
    omega
  · rw [length_writeVarint_of_le (by omega)]

theorem length_writeVarint_mono {m n : Nat} (h : m ≤ n) :
    (writeVarint m).length ≤ (writeVarint n).length := by
  induction n using Nat.strong_induction_on generalizing m with
  | _ n ih =>
    by_cases hm : m < 128
    · rw [length_writeVarint_of_lt hm]
      exact length_writeVarint_pos n
    · have hdiv := ih (n / 128) (by omega) (Nat.div_le_div_right h)
      rw [length_writeVarint_of_le (by omega), length_writeVarint_of_le (by omega : 128 ≤ n)]
      omega

theorem length_writeVarint_add (m n : Nat) :
    (writeVarint (m + n)).length ≤ (writeVarint m).length + (writeVarint n).length := by
  have hm := length_writeVarint_pos m
  have hn := length_writeVarint_pos n
  have hmax := length_writeVarint_mono (by omega : (m + n) / 128 ≤ max m n)
  have hsum := length_writeVarint_le_succ (m + n)
  rcases Nat.le_total m n with hle | hle
  · rw [Nat.max_eq_right hle] at hmax
    omega
  · rw [Nat.max_eq_left hle] at hmax
    omega

theorem toNat_ofNat_of_lt {n : Nat} (h : n < 256) : (UInt8.ofNat n).toNat = n :=
  UInt8.toNat_ofNat_of_lt h

theorem readVarintUpTo_writeVarint (k : Nat) (rest : List UInt8) : ∀ n < 2 ^ (7 * k + 1),
    readVarintUpTo (k + 1) (writeVarint n ++ rest) = some (n, rest) := by
  induction k with
  | zero =>
    intro n hn
    have hbyte : (UInt8.ofNat n).toNat = n := toNat_ofNat_of_lt (by omega)
    rw [writeVarint_of_lt (by omega), List.singleton_append, readVarintUpTo,
      hbyte, if_pos (by omega),
      if_neg (by omega)]
  | succ k ih =>
    intro n hn
    by_cases h : n < 128
    · have hbyte : (UInt8.ofNat n).toNat = n := toNat_ofNat_of_lt (by omega)
      rw [writeVarint_of_lt h, List.singleton_append, readVarintUpTo, hbyte,
        if_pos h, if_neg (by omega)]
    · have hbyte : (UInt8.ofNat (n % 128 + 128)).toNat = n % 128 + 128 :=
        toNat_ofNat_of_lt (by omega)
      have hpow : 2 ^ (7 * (k + 1) + 1) = 128 * 2 ^ (7 * k + 1) := by ring
      have hhigh := ih (n / 128) (by omega)
      rw [writeVarint_of_le (by omega), List.cons_append, readVarintUpTo, hbyte,
        if_neg (by omega), hhigh]
      show some (n % 128 + 128 - 128 + 128 * (n / 128), rest) = _
      rw [show n % 128 + 128 - 128 + 128 * (n / 128) = n by omega]

theorem readVarint_writeVarint {n : Nat} (h : n < 2 ^ 64) (rest : List UInt8) :
    readVarint (writeVarint n ++ rest) = some (n, rest) :=
  readVarintUpTo_writeVarint 9 rest n h

/-- What is read fits, and could not have been written shorter. -/
theorem readVarintUpTo_eq_some (k : Nat) {rest : List UInt8} : ∀ {bytes : List UInt8} {n : Nat},
    readVarintUpTo (k + 1) bytes = some (n, rest) →
      n < 2 ^ (7 * k + 1) ∧ (writeVarint n).length + rest.length ≤ bytes.length := by
  induction k with
  | zero =>
    intro bytes n h
    cases bytes with
    | nil => cases h
    | cons b bytes =>
      rw [readVarintUpTo] at h
      split at h
      · split at h
        · cases h
        · next hlow hbit =>
          obtain ⟨rfl, rfl⟩ := Prod.mk.inj (Option.some.inj h)
          rw [length_writeVarint_of_lt hlow, List.length_cons]
          omega
      · cases h
  | succ k ih =>
    intro bytes n h
    cases bytes with
    | nil => cases h
    | cons b bytes =>
      have hpow : 2 ^ (7 * (k + 1) + 1) = 128 * 2 ^ (7 * k + 1) := by ring
      have hpos : 0 < 2 ^ (7 * k + 1) := Nat.two_pow_pos _
      rw [readVarintUpTo] at h
      split at h
      · next hlow =>
        rw [if_neg (by omega)] at h
        obtain ⟨rfl, rfl⟩ := Prod.mk.inj (Option.some.inj h)
        rw [length_writeVarint_of_lt hlow, List.length_cons]
        omega
      · next hlow =>
        obtain ⟨⟨high, rest'⟩, hread, hn⟩ := Option.bind_eq_some_iff.mp h
        obtain ⟨rfl, rfl⟩ := Prod.mk.inj (Option.some.inj hn)
        obtain ⟨hhigh, hlen⟩ := ih hread
        have hb := b.toNat_lt
        have hsucc := length_writeVarint_le_succ (b.toNat - 128 + 128 * high)
        rw [show (b.toNat - 128 + 128 * high) / 128 = high by omega] at hsucc
        rw [List.length_cons]
        omega

theorem readVarint_eq_some {bytes rest : List UInt8} {n : Nat}
    (h : readVarint bytes = some (n, rest)) :
    n < 2 ^ 64 ∧ (writeVarint n).length + rest.length ≤ bytes.length :=
  readVarintUpTo_eq_some 9 h

/-! ## Records -/

inductive WireType where
  | varint
  | i64
  | len
  | sgroup
  | egroup
  | i32
deriving DecidableEq, Repr

def WireType.code : WireType → Nat
  | .varint => 0
  | .i64 => 1
  | .len => 2
  | .sgroup => 3
  | .egroup => 4
  | .i32 => 5

def WireType.ofCode : Nat → Option WireType
  | 0 => some .varint
  | 1 => some .i64
  | 2 => some .len
  | 3 => some .sgroup
  | 4 => some .egroup
  | 5 => some .i32
  | _ => none

theorem WireType.code_of_ofCode {n : Nat} {wireType : WireType}
    (h : WireType.ofCode n = some wireType) :
    wireType.code = n := by
  unfold WireType.ofCode at h
  split at h
  all_goals cases h
  all_goals rfl

theorem WireType.ofCode_code (wireType : WireType) :
    WireType.ofCode wireType.code = some wireType := by
  cases wireType <;> rfl

theorem WireType.code_lt (wireType : WireType) : wireType.code < 8 := by cases wireType <;> decide

/-- The value of a record; the contents of a group are skipped. -/
inductive Value where
  | varint (n : Nat)
  | i64 (bytes : List UInt8)
  | len (bytes : List UInt8)
  | group
  | i32 (bytes : List UInt8)
deriving DecidableEq, Repr

/-- The number of a field with a value. -/
abbrev Record := Nat × Value

/-- A key is a number below `2 ^ 32` and names a field above 0. -/
def readKey (bytes : List UInt8) : Option ((Nat × WireType) × List UInt8) := do
  let (key, rest) ← readVarint bytes
  if key < 2 ^ 32 ∧ 1 ≤ key / 8 then
    let wireType ← WireType.ofCode (key % 8)
    some ((key / 8, wireType), rest)
  else none

def readBytes (n : Nat) (bytes : List UInt8) : Option (List UInt8 × List UInt8) :=
  if n ≤ bytes.length then some (bytes.take n, bytes.drop n) else none

/-- A value that is not a group. -/
def readScalar (bytes : List UInt8) : WireType → Option (Value × List UInt8)
  | .varint => (readVarint bytes).map fun r => (.varint r.1, r.2)
  | .i64 => (readBytes 8 bytes).map fun r => (.i64 r.1, r.2)
  | .len => do
    let (n, bytes) ← readVarint bytes
    (readBytes n bytes).map fun r => (.len r.1, r.2)
  | .i32 => (readBytes 4 bytes).map fun r => (.i32 r.1, r.2)
  | .sgroup | .egroup => none

/-! ## What is read takes room -/

section room

variable {bytes rest : List UInt8}

theorem readKey_eq_some {tag : Nat} {wireType : WireType}
    (h : readKey bytes = some ((tag, wireType), rest)) :
    1 ≤ tag ∧ tag < 2 ^ 29 ∧ (writeVarint (8 * tag + wireType.code)).length + rest.length ≤
      bytes.length := by
  obtain ⟨⟨key, rest'⟩, hread, hrest⟩ := Option.bind_eq_some_iff.mp h
  obtain ⟨-, hlen⟩ := readVarint_eq_some hread
  dsimp only at hrest
  split at hrest
  · next hrange =>
    obtain ⟨wireType', hcode, heq⟩ := Option.bind_eq_some_iff.mp hrest
    obtain ⟨hkey, rfl⟩ := Prod.mk.inj (Option.some.inj heq)
    obtain ⟨rfl, rfl⟩ := Prod.mk.inj hkey
    rw [WireType.code_of_ofCode hcode, Nat.div_add_mod]
    omega
  · cases hrest

theorem length_lt_of_readKey {key : Nat × WireType} (h : readKey bytes = some (key, rest)) :
    rest.length < bytes.length := by
  obtain ⟨-, -, hlen⟩ := readKey_eq_some h
  have hpos := length_writeVarint_pos (8 * key.1 + key.2.code)
  omega

theorem readBytes_eq_some {n : Nat} {b : List UInt8} (h : readBytes n bytes = some (b, rest)) :
    b.length = n ∧ n + rest.length = bytes.length := by
  unfold readBytes at h
  split at h
  · next hle =>
    obtain ⟨rfl, rfl⟩ := Prod.mk.inj (Option.some.inj h)
    rw [List.length_take, List.length_drop]
    omega
  · cases h

theorem length_le_of_readScalar {wireType : WireType} {value : Value}
    (h : readScalar bytes wireType = some (value, rest)) : rest.length ≤ bytes.length := by
  cases wireType with
  | varint =>
    obtain ⟨⟨n, rest'⟩, hread, heq⟩ := Option.map_eq_some_iff.mp h
    obtain rfl : rest' = rest := congrArg Prod.snd heq
    have hlen := (readVarint_eq_some hread).2
    omega
  | len =>
    obtain ⟨⟨n, bytes'⟩, hread, hb⟩ := Option.bind_eq_some_iff.mp h
    obtain ⟨⟨b, rest'⟩, hbytes, heq⟩ := Option.map_eq_some_iff.mp hb
    obtain rfl : rest' = rest := congrArg Prod.snd heq
    have hlen := (readVarint_eq_some hread).2
    have hrest := (readBytes_eq_some hbytes).2
    omega
  | i64 | i32 =>
    obtain ⟨⟨b, rest'⟩, hbytes, heq⟩ := Option.map_eq_some_iff.mp h
    obtain rfl : rest' = rest := congrArg Prod.snd heq
    have hrest := (readBytes_eq_some hbytes).2
    omega
  | sgroup | egroup => cases h

end room

/-! ## Messages -/

/-- What follows the groups that are open, the innermost first; at most `depth` may be open. -/
def skipGroups (depth : Nat) (opened : List Nat) (bytes : List UInt8) : Option (List UInt8) :=
  match hkey : readKey bytes with
  | none => none
  | some ((tag, wireType), rest) =>
    have := length_lt_of_readKey hkey
    match wireType, opened with
    | .egroup, [] => none
    | .egroup, [outer] => if tag = outer then some rest else none
    | .egroup, inner :: outer => if tag = inner then skipGroups depth outer rest else none
    | .sgroup, opened =>
      if opened.length < depth then skipGroups depth (tag :: opened) rest else none
    | wireType, opened =>
      if opened.length < depth then
        match hvalue : readScalar rest wireType with
        | none => none
        | some (_, rest') =>
          have := length_le_of_readScalar hvalue
          skipGroups depth opened rest'
      else none
termination_by bytes.length

/-- The value of a field, of the type that its key says or, in one of the `maps`, a text. -/
def readValue (maps : List Nat) (depth tag : Nat) (bytes : List UInt8) (wireType : WireType) :
    Option (Value × List UInt8) :=
  if tag ∈ maps then readScalar bytes .len
  else if wireType = .sgroup then (skipGroups depth [tag] bytes).map fun rest => (.group, rest)
  else readScalar bytes wireType

theorem length_lt_of_skipGroups (depth : Nat) (opened : List Nat) (bytes : List UInt8)
    {rest : List UInt8} (h : skipGroups depth opened bytes = some rest) :
    rest.length < bytes.length := by
  fun_induction skipGroups depth opened bytes with
  | case3 =>
    -- the last group is closed
    obtain rfl := Option.some.inj h
    assumption
  | case5 =>
    rename_i ih
    have hlen := ih h
    omega
  | case7 =>
    rename_i ih
    have hlen := ih h
    omega
  | case10 =>
    rename_i ih
    have hlen := ih h
    omega
  | _ => cases h

theorem length_le_of_readValue {maps : List Nat} {depth tag : Nat} {bytes rest : List UInt8}
    {wireType : WireType} {value : Value}
    (h : readValue maps depth tag bytes wireType = some (value, rest)) :
    rest.length ≤ bytes.length := by
  unfold readValue at h
  split at h
  · exact length_le_of_readScalar h
  split at h
  · obtain ⟨rest', hskip, heq⟩ := Option.map_eq_some_iff.mp h
    obtain rfl : rest' = rest := congrArg Prod.snd heq
    exact Nat.le_of_lt (length_lt_of_skipGroups depth [tag] bytes hskip)
  · exact length_le_of_readScalar h

/-- The records of a message; `depth` is how many messages and groups may stand within each
other. -/
def records (maps : List Nat) (depth : Nat) (bytes : List UInt8) : Option (List Record) :=
  if bytes = [] then some []
  else
    match hkey : readKey bytes with
    | none => none
    | some ((tag, wireType), rest) =>
      have := length_lt_of_readKey hkey
      match hvalue : readValue maps depth tag rest wireType with
      | none => none
      | some (value, rest') =>
        have := length_le_of_readValue hvalue
        (records maps depth rest').map fun rs => (tag, value) :: rs
termination_by bytes.length

def writeKey (tag : Nat) (wireType : WireType) : List UInt8 := writeVarint (8 * tag + wireType.code)

/-- Only numbers and texts are written. -/
def writeRecord : Record → List UInt8
  | (tag, .varint n) => writeKey tag .varint ++ writeVarint n
  | (tag, .len b) => writeKey tag .len ++ writeVarint b.length ++ b
  | (_, .i64 _) | (_, .i32 _) | (_, .group) => []

def write (rs : List Record) : List UInt8 := rs.flatMap writeRecord

/-- What can be written: the number of the field is in range, and the number or the length is. What
is read as a text is no number. -/
def Writable (maps : List Nat) : Record → Prop
  | (tag, .varint n) => 1 ≤ tag ∧ tag < 2 ^ 29 ∧ n < 2 ^ 64 ∧ tag ∉ maps
  | (tag, .len b) => 1 ≤ tag ∧ tag < 2 ^ 29 ∧ b.length < 2 ^ 64
  | (_, .i64 _) | (_, .i32 _) | (_, .group) => False

/-- `Writable` but for the length of a text. -/
def Plain (maps : List Nat) : Record → Prop
  | (tag, .varint n) => 1 ≤ tag ∧ tag < 2 ^ 29 ∧ n < 2 ^ 64 ∧ tag ∉ maps
  | (tag, .len _) => 1 ≤ tag ∧ tag < 2 ^ 29
  | (_, .i64 _) | (_, .i32 _) | (_, .group) => False

theorem readKey_writeKey {tag : Nat} (hpos : 1 ≤ tag) (hlt : tag < 2 ^ 29) (wireType : WireType)
    (rest : List UInt8) :
    readKey (writeKey tag wireType ++ rest) = some ((tag, wireType), rest) := by
  have hcode := wireType.code_lt
  have htag : (8 * tag + wireType.code) / 8 = tag := by omega
  have hmod : (8 * tag + wireType.code) % 8 = wireType.code := by omega
  unfold readKey writeKey
  rw [readVarint_writeVarint (by omega), Option.bind_eq_bind, Option.bind_some]
  dsimp only
  rw [if_pos (by omega), htag, hmod, WireType.ofCode_code]
  rfl

theorem writeKey_ne_nil (tag : Nat) (wireType : WireType) (rest : List UInt8) :
    writeKey tag wireType ++ rest ≠ [] := by
  have hpos := length_writeVarint_pos (8 * tag + wireType.code)
  intro h
  have hlen := congrArg List.length h
  unfold writeKey at hlen
  rw [List.length_append, List.length_nil] at hlen
  omega

theorem length_writeKey (tag : Nat) (a b : WireType) :
    (writeKey tag a).length = (writeKey tag b).length := by
  have ha := a.code_lt
  have hb := b.code_lt
  unfold writeKey
  by_cases h : tag < 16
  · rw [length_writeVarint_of_lt (by omega), length_writeVarint_of_lt (by omega)]
  · have hdiv : (8 * tag + a.code) / 128 = (8 * tag + b.code) / 128 := by omega
    rw [length_writeVarint_of_le (by omega : 128 ≤ 8 * tag + a.code),
      length_writeVarint_of_le (by omega : 128 ≤ 8 * tag + b.code), hdiv]

section records

variable {maps : List Nat} {depth tag : Nat} {bytes rest rest' : List UInt8} {wireType : WireType}
  {value : Value}

theorem readValue_len : readValue maps depth tag bytes .len = readScalar bytes .len := by
  unfold readValue
  split
  · rfl
  · rw [if_neg (by decide)]

theorem readValue_varint (h : tag ∉ maps) :
    readValue maps depth tag bytes .varint = readScalar bytes .varint := by
  unfold readValue
  rw [if_neg h, if_neg (by decide)]

variable (maps depth) in
theorem records_nil : records maps depth [] = some [] := by
  rw [records, if_pos rfl]

theorem records_cons (hne : bytes ≠ []) (hkey : readKey bytes = some ((tag, wireType), rest))
    (hvalue : readValue maps depth tag rest wireType = some (value, rest')) :
    records maps depth bytes = (records maps depth rest').map fun rs => (tag, value) :: rs := by
  rw [records, if_neg hne]
  split
  · next hnone =>
    rw [hkey] at hnone
    cases hnone
  · next heq =>
    rw [hkey] at heq
    cases heq
    split
    · next hnone =>
      rw [hvalue] at hnone
      cases hnone
    · next heq =>
      rw [hvalue] at heq
      cases heq
      rfl

variable (depth) in
theorem records_writeRecord_append {r : Record} (h : Writable maps r) (bytes : List UInt8) :
    records maps depth (writeRecord r ++ bytes) = (records maps depth bytes).map fun rs =>
      r :: rs := by
  obtain ⟨tag, value⟩ := r
  cases value with
  | varint n =>
    obtain ⟨hpos, htag, hn, hmaps⟩ := h
    unfold writeRecord
    rw [List.append_assoc]
    refine records_cons (writeKey_ne_nil _ _ _) (readKey_writeKey hpos htag _ _)
      ((readValue_varint hmaps).trans ?_)
    show (readVarint (writeVarint n ++ bytes)).map _ = _
    rw [readVarint_writeVarint hn]
    rfl
  | len b =>
    obtain ⟨hpos, htag, hn⟩ := h
    have hbytes : readBytes b.length (b ++ bytes) = some (b, bytes) := by
      unfold readBytes
      rw [if_pos (by simp), List.take_left, List.drop_left]
    unfold writeRecord
    rw [List.append_assoc, List.append_assoc]
    refine records_cons (writeKey_ne_nil _ _ _) (readKey_writeKey hpos htag _ _)
      (readValue_len.trans ?_)
    show ((readVarint (writeVarint b.length ++ (b ++ bytes))).bind fun r => _) = _
    rw [readVarint_writeVarint hn, Option.bind_some]
    dsimp only
    rw [hbytes]
    rfl
  | i64 | i32 | group => exact False.elim h

variable (depth) in
/-- What is written reads back. -/
theorem records_write {rs : List Record} (h : ∀ r ∈ rs, Writable maps r) :
    records maps depth (write rs) = some rs := by
  induction rs with
  | nil => exact records_nil maps depth
  | cons r rs ih =>
    unfold write
    rw [List.flatMap_cons, records_writeRecord_append depth (h r List.mem_cons_self)]
    have hrs := ih fun r' hr' => h r' (List.mem_cons_of_mem _ hr')
    unfold write at hrs
    rw [hrs]
    rfl

/-- A number that was read fits 64 bits. -/
def Fits : Record → Prop
  | (_, .varint n) => n < 2 ^ 64
  | _ => True

theorem readScalar_eq_some (h : readScalar bytes wireType = some (value, rest)) :
    Fits (tag, value) ∧ (writeRecord (tag, value)).length + rest.length ≤
      (writeKey tag wireType).length + bytes.length := by
  have hle := length_le_of_readScalar h
  cases wireType with
  | varint =>
    obtain ⟨⟨n, rest'⟩, hread, heq⟩ := Option.map_eq_some_iff.mp h
    obtain ⟨rfl, rfl⟩ := Prod.mk.inj heq
    obtain ⟨hn, hlen⟩ := readVarint_eq_some hread
    refine ⟨hn, ?_⟩
    show (writeKey tag .varint ++ writeVarint n).length + rest'.length ≤ _
    rw [List.length_append]
    omega
  | len =>
    obtain ⟨⟨n, bytes'⟩, hread, hb⟩ := Option.bind_eq_some_iff.mp h
    obtain ⟨⟨b, rest'⟩, hbytes, heq⟩ := Option.map_eq_some_iff.mp hb
    obtain ⟨rfl, rfl⟩ := Prod.mk.inj heq
    obtain ⟨-, hlen⟩ := readVarint_eq_some hread
    obtain ⟨rfl, hrest⟩ := readBytes_eq_some hbytes
    refine ⟨trivial, ?_⟩
    show (writeKey tag .len ++ writeVarint b.length ++ b).length + rest'.length ≤ _
    rw [List.length_append, List.length_append]
    omega
  | i64 | i32 =>
    -- nothing is written for these
    obtain ⟨r, -, heq⟩ := Option.map_eq_some_iff.mp h
    obtain rfl := congrArg Prod.fst heq
    refine ⟨trivial, ?_⟩
    show 0 + rest.length ≤ _
    omega
  | sgroup | egroup => cases h

theorem readValue_eq_some (h : readValue maps depth tag bytes wireType = some (value, rest)) :
    Fits (tag, value) ∧ (writeRecord (tag, value)).length + rest.length ≤
      (writeKey tag wireType).length + bytes.length := by
  have hle := length_le_of_readValue h
  unfold readValue at h
  split at h
  · -- the key takes as much room as that of a text
    rw [length_writeKey tag wireType .len]
    exact readScalar_eq_some h
  split at h
  · obtain ⟨rest', -, heq⟩ := Option.map_eq_some_iff.mp h
    obtain rfl := congrArg Prod.fst heq
    refine ⟨trivial, ?_⟩
    show 0 + rest.length ≤ _
    omega
  · exact readScalar_eq_some h

variable (maps depth bytes) in
/-- What is read fits, and does not take more room when it is written again. -/
theorem records_eq_some : ∀ {rs : List Record}, records maps depth bytes = some rs →
    (∀ r ∈ rs, Fits r) ∧ (write rs).length ≤ bytes.length := by
  fun_induction records maps depth bytes with
  | case1 =>
    intro rs h
    obtain rfl := Option.some.inj h
    exact ⟨fun r hr => (List.not_mem_nil hr).elim, Nat.le_refl 0⟩
  | case2 =>
    intro rs h
    cases h
  | case3 =>
    intro rs h
    cases h
  | case4 bytes _ tag wireType rest hkey _ value rest' hvalue _ ih =>
    intro rs h
    obtain ⟨rs', hrs, rfl⟩ := Option.map_eq_some_iff.mp h
    obtain ⟨hfits, hlen⟩ := ih hrs
    obtain ⟨-, -, hkeylen⟩ := readKey_eq_some hkey
    obtain ⟨hfit, hvaluelen⟩ := readValue_eq_some hvalue
    refine ⟨List.forall_mem_cons.mpr ⟨hfit, hfits⟩, ?_⟩
    unfold write writeKey at *
    rw [List.flatMap_cons, List.length_append]
    omega

end records

/-! ## Fields -/

theorem length_write_append (rs rs' : List Record) :
    (write (rs ++ rs')).length = (write rs).length + (write rs').length := by
  unfold write
  rw [List.flatMap_append, List.length_append]

theorem length_write_cons (r : Record) (rs : List Record) :
    (write (r :: rs)).length = (writeRecord r).length + (write rs).length := by
  unfold write
  rw [List.flatMap_cons, List.length_append]

theorem length_write_concat {α : Type} (f : α → Record) (l : List α) (a : α) :
    (write ((l ++ [a]).map f)).length = (write (l.map f)).length + (writeRecord (f a)).length := by
  rw [List.map_append, length_write_append, List.map_singleton, length_write_cons]
  rfl

theorem length_write_sublist {rs rs' : List Record} (h : List.Sublist rs rs') :
    (write rs).length ≤ (write rs').length :=
  (h.flatMap writeRecord).length_le

/-- A number, which is left out if it is 0. -/
def uint64Field (tag n : Nat) : List Record := if n = 0 then [] else [(tag, .varint n)]

/-- A text, which is left out if it is empty. -/
def bytesField (tag : Nat) (b : List UInt8) : List Record := if b = [] then [] else [(tag, .len b)]

/-- A message within a message. -/
def messageField (tag : Nat) (rs : List Record) : Record := (tag, .len (write rs))

/-- The bytes of a string. -/
def utf8 (s : String) : List UInt8 := s.toByteArray.data.toList

def fromUtf8 (b : List UInt8) : Option String := String.fromUTF8? ⟨b.toArray⟩

def stringField (tag : Nat) (s : String) : List Record := bytesField tag (utf8 s)

def Value.uint64? : Value → Option Nat
  | .varint n => some n
  | _ => none

def Value.bytes? : Value → Option (List UInt8)
  | .len b => some b
  | _ => none

def Value.string? (value : Value) : Option String := value.bytes?.bind fromUtf8

theorem fromUtf8_eq_some {b : List UInt8} {s : String} : fromUtf8 b = some s ↔ b = utf8 s := by
  unfold fromUtf8 String.fromUTF8? utf8
  constructor
  · intro h
    split at h
    · obtain rfl := Option.some.inj h
      rfl
    · cases h
  · intro h
    subst h
    rw [dif_pos s.isValidUTF8]
    rfl

theorem utf8_eq_nil {s : String} : utf8 s = [] ↔ s = "" := by
  constructor
  · intro h
    have hs := fromUtf8_eq_some.mpr h.symm
    have hempty : fromUtf8 [] = some "" := fromUtf8_eq_some.mpr rfl
    exact Option.some.inj (hs.symm.trans hempty)
  · rintro rfl
    rfl

section fields

variable {maps : List Nat} {tag n : Nat} {value : Value} {a b c : List UInt8}

theorem uint64?_eq_some : value.uint64? = some n ↔ value = .varint n := by
  cases value <;> simp [Value.uint64?]

theorem bytes?_eq_some : value.bytes? = some b ↔ value = .len b := by
  cases value <;> simp [Value.bytes?]

theorem plain_uint64Field (hpos : 1 ≤ tag) (hlt : tag < 2 ^ 29) (hn : n < 2 ^ 64)
    (hmaps : tag ∉ maps) :
    ∀ r ∈ uint64Field tag n, Plain maps r := by
  unfold uint64Field
  split
  · exact fun r hr => (List.not_mem_nil hr).elim
  · exact List.forall_mem_singleton.mpr ⟨hpos, hlt, hn, hmaps⟩

theorem plain_bytesField (hpos : 1 ≤ tag) (hlt : tag < 2 ^ 29) (b : List UInt8) :
    ∀ r ∈ bytesField tag b, Plain maps r := by
  unfold bytesField
  split
  · exact fun r hr => (List.not_mem_nil hr).elim
  · exact List.forall_mem_singleton.mpr ⟨hpos, hlt⟩

theorem string?_eq_some {s : String} : value.string? = some s ↔ value = .len (utf8 s) := by
  unfold Value.string?
  rw [Option.bind_eq_some_iff]
  constructor
  · rintro ⟨b, hb, hs⟩
    rw [bytes?_eq_some.mp hb, fromUtf8_eq_some.mp hs]
  · rintro rfl
    exact ⟨utf8 s, rfl, fromUtf8_eq_some.mpr rfl⟩

theorem length_writeRecord_len (tag : Nat) (b : List UInt8) : (writeRecord (tag, .len b)).length =
    (writeKey tag .len).length + (writeVarint b.length).length + b.length := by
  show (writeKey tag .len ++ writeVarint b.length ++ b).length = _
  rw [List.length_append, List.length_append]

theorem length_write_uint64Field_le (tag n : Nat) :
    (write (uint64Field tag n)).length ≤ (writeRecord (tag, .varint n)).length := by
  unfold uint64Field
  split
  · exact Nat.zero_le _
  · rw [length_write_cons]
    exact Nat.le_refl _

theorem length_write_bytesField_le (tag : Nat) (b : List UInt8) :
    (write (bytesField tag b)).length ≤ (writeRecord (tag, .len b)).length := by
  unfold bytesField
  split
  · exact Nat.zero_le _
  · rw [length_write_cons]
    exact Nat.le_refl _

theorem length_writeRecord_len_mono (tag : Nat) (h : a.length ≤ b.length) :
    (writeRecord (tag, .len a)).length ≤ (writeRecord (tag, .len b)).length := by
  have hmono := length_writeVarint_mono h
  rw [length_writeRecord_len, length_writeRecord_len]
  omega

theorem length_writeRecord_len_add (tag : Nat) (h : c.length ≤ a.length + b.length) :
    (writeRecord (tag, .len c)).length ≤
      (writeRecord (tag, .len a)).length + (writeRecord (tag, .len b)).length := by
  have hmono := length_writeVarint_mono h
  have hadd := length_writeVarint_add a.length b.length
  rw [length_writeRecord_len, length_writeRecord_len, length_writeRecord_len]
  omega

theorem length_le_of_mem {rs : List Record} (h : (tag, .len b) ∈ rs) :
    b.length ≤ (write rs).length := by
  induction rs with
  | nil => exact (List.not_mem_nil h).elim
  | cons r rs ih =>
    rw [length_write_cons]
    rcases List.mem_cons.mp h with rfl | hrs
    · rw [length_writeRecord_len]
      omega
    · have hle := ih hrs
      omega

theorem writable_of_plain {rs : List Record} (h : ∀ r ∈ rs, Plain maps r)
    (hlen : (write rs).length < 2 ^ 64) :
    ∀ r ∈ rs, Writable maps r := by
  rintro ⟨tag, value⟩ hr
  have hplain := h _ hr
  cases value with
  | varint n => exact hplain
  | len b =>
    have hb := length_le_of_mem hr
    exact ⟨hplain.1, hplain.2, by omega⟩
  | i64 | group | i32 => exact False.elim hplain

end fields

/-! ## Reading a message -/

section messages

variable {M : Type} {maps : List Nat} {mergeField : M → Record → Option M} {depth : Nat} {m m' : M}
  {bytes : List UInt8}

/-- Take the records of `bytes` into a message, one after the other. -/
def merge (maps : List Nat) (mergeField : M → Record → Option M) (depth : Nat) (m : M)
    (bytes : List UInt8) : Option M :=
  (records maps depth bytes).bind fun rs => rs.foldlM mergeField m

theorem merge_write {rs : List Record} (h : ∀ r ∈ rs, Writable maps r) :
    merge maps mergeField depth m (write rs) = rs.foldlM mergeField m := by
  unfold merge
  rw [records_write depth h, Option.bind_some]

/-- What each record preserves, a message preserves. -/
theorem merge_invariant {P : M → Prop}
    (hstep : ∀ m r m', Fits r → P m → mergeField m r = some m' → P m')
    (h : merge maps mergeField depth m bytes = some m') (hm : P m) : P m' := by
  obtain ⟨rs, hrs, hrun⟩ := Option.bind_eq_some_iff.mp h
  obtain ⟨hfits, -⟩ := records_eq_some maps depth bytes hrs
  clear hrs h
  induction rs generalizing m with
  | nil =>
    obtain rfl := Option.some.inj hrun
    exact hm
  | cons r rs ih =>
    rw [List.foldlM_cons] at hrun
    obtain ⟨m₁, hr, hrun⟩ := Option.bind_eq_some_iff.mp hrun
    obtain ⟨hfit, hfits⟩ := List.forall_mem_cons.mp hfits
    exact ih (hstep m r m₁ hfit hm hr) hrun hfits

/-- A message does not grow by more than what is read into it. -/
theorem merge_length (size : M → Nat)
    (hstep : ∀ m r m', mergeField m r = some m' → size m' ≤ size m + (writeRecord r).length)
    (h : merge maps mergeField depth m bytes = some m') : size m' ≤ size m + bytes.length := by
  obtain ⟨rs, hrs, hrun⟩ := Option.bind_eq_some_iff.mp h
  obtain ⟨-, hlen⟩ := records_eq_some maps depth bytes hrs
  have hsize : size m' ≤ size m + (write rs).length := by
    clear hrs h hlen
    induction rs generalizing m with
    | nil =>
      obtain rfl := Option.some.inj hrun
      exact Nat.le_refl _
    | cons r rs ih =>
      rw [List.foldlM_cons] at hrun
      obtain ⟨m₁, hr, hrun⟩ := Option.bind_eq_some_iff.mp hrun
      have hfirst := hstep m r m₁ hr
      have hrest := ih hrun
      rw [length_write_cons]
      omega
  omega

theorem foldlM_uint64Field {tag : Nat} (put : Nat → M)
    (hput : ∀ value, mergeField m (tag, value) = value.uint64?.map put) (hm : m = put 0) (n : Nat) :
    (uint64Field tag n).foldlM mergeField m = some (put n) := by
  unfold uint64Field
  split
  · next hzero =>
    rw [hzero, hm]
    rfl
  · show mergeField m (tag, .varint n) >>= pure = _
    rw [hput]
    rfl

theorem foldlM_bytesField {tag : Nat} (put : List UInt8 → M)
    (hput : ∀ value, mergeField m (tag, value) = value.bytes?.map put) (hm : m = put [])
    (b : List UInt8) :
    (bytesField tag b).foldlM mergeField m = some (put b) := by
  unfold bytesField
  split
  · next hempty =>
    rw [hempty, hm]
    rfl
  · show mergeField m (tag, .len b) >>= pure = _
    rw [hput]
    rfl

theorem foldlM_stringField {tag : Nat} (put : String → M)
    (hput : ∀ value, mergeField m (tag, value) = value.string?.map put) (hm : m = put "")
    (s : String) :
    (stringField tag s).foldlM mergeField m = some (put s) := by
  unfold stringField bytesField
  split
  · next hempty =>
    rw [utf8_eq_nil.mp hempty, hm]
    rfl
  · show mergeField m (tag, .len (utf8 s)) >>= pure = _
    rw [hput, string?_eq_some.mpr rfl]
    rfl

theorem foldlM_put {α σ : Type} {field : α → Record} (put : σ → M) (next : σ → α → σ) {l : List α}
    (hstep : ∀ s, ∀ a ∈ l, mergeField (put s) (field a) = some (put (next s a))) (s : σ) :
    (l.map field).foldlM mergeField (put s) = some (put (l.foldl next s)) := by
  induction l generalizing s with
  | nil => rfl
  | cons a l ih =>
    rw [List.map_cons, List.foldlM_cons, hstep s a List.mem_cons_self]
    exact ih (fun s b hb => hstep s b (List.mem_cons_of_mem _ hb)) (next s a)

/-- Take a message within a message in, one level further down. -/
def mergeMessage (maps : List Nat) (mergeField : Nat → M → Record → Option M) :
    Nat → M → Value → Option M
  | depth + 1, m, .len b => merge maps (mergeField depth) depth m b
  | _, _, _ => none

section mergeMessage

variable {mergeField : Nat → M → Record → Option M} {value : Value}

theorem mergeMessage_eq_some (h : mergeMessage maps mergeField depth m value = some m') :
    ∃ depth' b, value = .len b ∧ merge maps (mergeField depth') depth' m b = some m' := by
  cases depth with
  | zero => cases h
  | succ depth =>
    cases value with
    | len b => exact ⟨depth, b, rfl, h⟩
    | varint | i64 | group | i32 => cases h

theorem mergeMessage_write {rs : List Record} (h : ∀ r ∈ rs, Writable maps r) :
    mergeMessage maps mergeField (depth + 1) m (.len (write rs)) = rs.foldlM (mergeField depth) m :=
  merge_write h

theorem mergeMessage_invariant {P : M → Prop}
    (hstep : ∀ depth m r m', Fits r → P m → mergeField depth m r = some m' → P m')
    (h : mergeMessage maps mergeField depth m value = some m') (hm : P m) : P m' := by
  obtain ⟨depth', b, -, hmerge⟩ := mergeMessage_eq_some h
  exact merge_invariant (hstep depth') hmerge hm

theorem mergeMessage_length (size : M → Nat)
    (hstep : ∀ depth m r m', mergeField depth m r = some m' →
      size m' ≤ size m + (writeRecord r).length)
    (h : mergeMessage maps mergeField depth m value = some m') :
    ∃ b, value = .len b ∧ size m' ≤ size m + b.length := by
  obtain ⟨depth', b, hvalue, hmerge⟩ := mergeMessage_eq_some h
  exact ⟨b, hvalue, merge_length size (hstep depth') hmerge⟩

end mergeMessage

end messages

end Wire
