import Mathlib.Data.String.Basic
import Mathlib.Data.List.Infix
import Mathlib.Tactic.Common
import Mathlib.Algebra.Order.Ring.Nat

/-!
# Text with separators and numbers

Splitting a text at a separator of several characters, reading decimal numbers, and the order of
texts that end in a decimal number.

A text that was put together from parts and separators splits into the same parts if no separator
begins before its place; `Separable sep h` says so of the part `h`, with the first characters of the
separator that follows it. Numbers of the same length are ordered as their texts are. Of two numbers
of different lengths the shorter one is compared with the leading digits of the longer one
(`decimal_append_le_iff`).
-/

namespace Text

/-! ## Separators -/

section separators

variable {α : Type} [DecidableEq α]

/-- What stands before and after the first occurrence of a (non-empty) separator. -/
def splitOnce (sep : List α) : List α → Option (List α × List α)
  | [] => none
  | a :: l =>
    match (a :: l).dropPrefix? sep with
    | some rest => some ([], rest)
    | none => (splitOnce sep l).map fun p => (a :: p.1, p.2)

/-- At most `n` parts, the last of which is what the others leave. -/
def splitN (sep : List α) : Nat → List α → List (List α)
  | 0, _ => []
  | 1, l => [l]
  | n + 2, l =>
    match splitOnce sep l with
    | some (h, t) => h :: splitN sep (n + 1) t
    | none => [l]

/-- No separator begins in `h` when one follows it. -/
def Separable (sep h : List α) : Prop := ¬ sep <:+: h ++ sep.dropLast

instance (sep h : List α) : Decidable (Separable sep h) := inferInstanceAs (Decidable (¬ _))

theorem dropPrefix?_iff {l p s : List α} : l.dropPrefix? p = some s ↔ l = p ++ s := by
  rw [List.dropPrefix?_eq_some_iff]
  simp

theorem dropSuffix?_iff {l p s : List α} : l.dropSuffix? s = some p ↔ l = p ++ s := by
  rw [List.dropSuffix?_eq_some_iff]
  simp

variable {sep : List α}

omit [DecidableEq α] in
theorem separable_nil (hsep : sep ≠ []) : Separable sep [] := by
  intro h
  have hle := h.length_le
  have hpos := List.length_pos_iff.mpr hsep
  rw [List.nil_append, List.length_dropLast] at hle
  omega

omit [DecidableEq α] in
theorem not_separable_of_prefix {b : α} {h t : List α} (hpre : sep <+: b :: h ++ sep ++ t)
    (hsep : sep ≠ []) :
    ¬ Separable sep (b :: h) := by
  intro hs
  apply hs
  have hall : b :: h ++ sep.dropLast <+: b :: h ++ sep ++ t := by
    rw [List.append_assoc]
    exact List.prefix_append_right_inj _ |>.mpr
      ((List.dropLast_prefix sep).trans (List.prefix_append _ _))
  have hpos := List.length_pos_iff.mpr hsep
  have hle : sep.length ≤ (b :: h ++ sep.dropLast).length := by
    rw [List.length_append, List.length_dropLast, List.length_cons]
    omega
  exact (List.prefix_of_prefix_length_le hpre hall hle).isInfix

theorem splitOnce_eq_some_iff (hsep : sep ≠ []) (l : List α) : ∀ h t : List α,
    splitOnce sep l = some (h, t) ↔ l = h ++ sep ++ t ∧ Separable sep h := by
  induction l with
  | nil =>
    intro h t
    simp [splitOnce, hsep]
  | cons a l ih =>
    intro h t
    unfold splitOnce
    cases hdrop : (a :: l).dropPrefix? sep with
    | some rest =>
      rw [dropPrefix?_iff] at hdrop
      rw [hdrop]
      cases h with
      | nil => simp [separable_nil hsep, eq_comm]
      | cons b h =>
        refine iff_of_false (by simp) fun ⟨heq, hs⟩ => ?_
        have hpre : sep <+: b :: h ++ sep ++ t := by
          rw [← heq]
          exact List.prefix_append sep rest
        exact not_separable_of_prefix hpre hsep hs
    | none =>
      have hnot : ¬ sep <+: a :: l := by
        rintro ⟨rest, hrest⟩
        rw [dropPrefix?_iff.mpr hrest.symm] at hdrop
        cases hdrop
      cases h with
      | nil =>
        refine iff_of_false (by simp) fun ⟨heq, _⟩ => hnot ?_
        rw [heq]
        exact List.prefix_append sep t
      | cons b h =>
        simp only [Option.map_eq_some_iff, Prod.mk.injEq, List.cons.injEq, Prod.exists]
        constructor
        · rintro ⟨h', t', hsplit, ⟨rfl, rfl⟩, rfl⟩
          obtain ⟨rfl, hs⟩ := (ih h' t').mp hsplit
          refine ⟨rfl, fun hin => ?_⟩
          rcases List.infix_cons_iff.mp hin with hpre | hin
          · apply hnot
            refine hpre.trans ?_
            rw [List.append_assoc]
            exact (List.prefix_append_right_inj (a :: h')).mpr
              ((List.dropLast_prefix sep).trans (List.prefix_append _ _))
          · exact hs hin
        · rintro ⟨heq, hs⟩
          obtain ⟨rfl, rfl⟩ := List.cons.inj heq
          exact ⟨h, t, (ih h t).mpr ⟨rfl, fun hin => hs (List.infix_cons hin)⟩, ⟨rfl, rfl⟩, rfl⟩

theorem splitOnce_append (hsep : sep ≠ []) {h : List α} (hs : Separable sep h) (t : List α) :
    splitOnce sep (h ++ sep ++ t) = some (h, t) :=
  (splitOnce_eq_some_iff hsep _ h t).mpr ⟨rfl, hs⟩

theorem splitN_eq_cons_cons_iff (hsep : sep ≠ []) {n : Nat} {l h p : List α} {ps : List (List α)} :
    splitN sep (n + 2) l = h :: p :: ps ↔
      ∃ t, (l = h ++ sep ++ t ∧ Separable sep h) ∧ splitN sep (n + 1) t = p :: ps := by
  have hiff := splitOnce_eq_some_iff hsep l
  rw [splitN]
  cases hsplit : splitOnce sep l with
  | none =>
    refine iff_of_false (by simp) ?_
    rintro ⟨t, hl, -⟩
    rw [(hiff h t).mpr hl] at hsplit
    cases hsplit
  | some part =>
    obtain ⟨h', t'⟩ := part
    simp only [List.cons.injEq]
    constructor
    · rintro ⟨rfl, hrest⟩
      exact ⟨t', (hiff h' t').mp hsplit, hrest⟩
    · rintro ⟨t, hl, hrest⟩
      rw [(hiff h t).mpr hl] at hsplit
      obtain ⟨rfl, rfl⟩ := Prod.mk.inj (Option.some.inj hsplit)
      exact ⟨rfl, hrest⟩

omit [DecidableEq α] in
theorem infix_append_cons {a : α} {x y : List α} (ha : a ∉ sep) (h : sep <:+: x ++ a :: y) :
    sep <:+: x ∨ sep <:+: y := by
  rcases List.infix_append_iff.mp h with h | h | ⟨l₁, l₂, rfl, hx, hy⟩
  · exact Or.inl h
  · rcases List.infix_cons_iff.mp h with h | h
    · refine Or.inr ?_
      cases sep with
      | nil => exact List.nil_infix
      | cons b l =>
        obtain ⟨heq, -⟩ := List.cons_prefix_cons.mp h
        exact absurd (heq ▸ List.mem_cons_self) ha
    · exact Or.inr h
  · cases l₂ with
    | nil =>
      rw [List.append_nil]
      exact Or.inl hx.isInfix
    | cons b l =>
      obtain ⟨heq, -⟩ := List.cons_prefix_cons.mp hy
      exact absurd (List.mem_append_right l₁ (heq ▸ List.mem_cons_self)) ha

omit [DecidableEq α] in
theorem prefix_of_prefix_append {a : α} {g u w : List α} (ha : a ∉ sep) (hno : ¬ sep <:+: a :: w)
    (h : g ++ sep <+: u ++ a :: w) : g ++ sep <+: u := by
  obtain ⟨rest, hrest⟩ := h
  rcases List.append_eq_append_iff.mp hrest with ⟨x, rfl, -⟩ | ⟨x, hx, htail⟩
  · exact List.prefix_append _ x
  · cases x with
    | nil => rw [hx, List.append_nil]
    | cons b x =>
      obtain ⟨rfl, rfl⟩ := List.cons.inj htail
      rcases List.append_eq_append_iff.mp hx with ⟨y, -, hsep⟩ | ⟨y, -, hy⟩
      · exact absurd (hsep ▸ List.mem_append_right y List.mem_cons_self) ha
      · refine absurd ?_ hno
        rw [htail, hy]
        exact ⟨y, rest, rfl⟩

omit [DecidableEq α] in
theorem prefix_of_prefix_append_of_notMem {a : α} {g u w : List α} (ha : a ∉ w)
    (h : g ++ [a] <+: u ++ w) :
    g ++ [a] <+: u := by
  obtain ⟨rest, hrest⟩ := h
  rcases List.append_eq_append_iff.mp hrest with ⟨x, rfl, -⟩ | ⟨x, hx, rfl⟩
  · exact List.prefix_append _ x
  · induction x using List.reverseRecOn with
    | nil => rw [hx, List.append_nil]
    | append_singleton x b _ =>
      rw [← List.append_assoc] at hx
      obtain rfl := (List.cons.inj (List.append_inj' hx rfl).2).1
      exact absurd (by simp) ha

omit [DecidableEq α] in
theorem three_le_length_splitOn [BEq α] [ReflBEq α] (a : α) (x y z : List α) :
    3 ≤ ((x ++ a :: (y ++ a :: z)).splitOn a).length := by
  have hx := List.length_pos_iff.mpr (List.splitOn_ne_nil a x)
  have hy := List.length_pos_iff.mpr (List.splitOn_ne_nil a y)
  have hz := List.length_pos_iff.mpr (List.splitOn_ne_nil a z)
  rw [List.splitOn_append_cons_self, List.splitOn_append_cons_self, List.length_append,
    List.length_append]
  omega

/-- Two texts that begin with separable parts and a separator begin with the same part. -/
theorem Separable.eq_of_prefix (hsep : sep ≠ []) {g h t : List α} (hg : Separable sep g)
    (hh : Separable sep h) (hpre : g ++ sep <+: h ++ sep ++ t) : g = h := by
  obtain ⟨u, hu⟩ := hpre
  have hleft := splitOnce_append hsep hg u
  rw [hu, splitOnce_append hsep hh t] at hleft
  exact (Prod.mk.inj (Option.some.inj hleft)).1.symm

end separators

/-! ## Decimal numbers -/

/-- A non-empty text of digits. -/
def parseDigits (l : List Char) : Option Nat :=
  if l ≠ [] ∧ l.all Char.isDigit = true then some (Nat.ofDigitChars 10 l 0) else none

/-- `str::parse::<u64>`. -/
def parseU64 : List Char → Option Nat
  | '+' :: l => (parseDigits l).filter fun n => decide (n < 2 ^ 64)
  | l => (parseDigits l).filter fun n => decide (n < 2 ^ 64)

/-- `str::parse::<i64>`. -/
def parseI64 : List Char → Option Int
  | '+' :: l => (parseDigits l).bind fun n => if n < 2 ^ 63 then some (n : Int) else none
  | '-' :: l => (parseDigits l).bind fun n => if n ≤ 2 ^ 63 then some (-(n : Int)) else none
  | l => (parseDigits l).bind fun n => if n < 2 ^ 63 then some (n : Int) else none

theorem isDigit_of_mem_toDigits {n : Nat} {c : Char} (h : c ∈ Nat.toDigits 10 n) :
    c.isDigit = true :=
  Nat.isDigit_of_mem_toDigits (by decide) (by decide) h

theorem parseDigits_toDigits (n : Nat) : parseDigits (Nat.toDigits 10 n) = some n := by
  have hall : (Nat.toDigits 10 n).all Char.isDigit = true :=
    List.all_eq_true.mpr fun c hc => isDigit_of_mem_toDigits hc
  unfold parseDigits
  rw [if_pos ⟨Nat.toDigits_ne_nil, hall⟩, Nat.ofDigitChars_ten_toDigits]

theorem toDigits_cons (n : Nat) : ∃ c l, Nat.toDigits 10 n = c :: l ∧ c.isDigit = true := by
  obtain ⟨c, l, h⟩ := List.exists_cons_of_ne_nil (Nat.toDigits_ne_nil (n := n) (b := 10))
  exact ⟨c, l, h, isDigit_of_mem_toDigits (by rw [h]; exact List.mem_cons_self)⟩

theorem parseU64_toDigits {n : Nat} (h : n < 2 ^ 64) : parseU64 (Nat.toDigits 10 n) = some n := by
  obtain ⟨c, l, hcons, hc⟩ := toDigits_cons n
  have hparse := parseDigits_toDigits n
  unfold parseU64
  split
  · next heq =>
    rw [heq] at hcons
    obtain ⟨rfl, -⟩ := List.cons.inj hcons
    exact absurd hc (by decide)
  · rw [hparse, Option.filter_some, if_pos (decide_eq_true h)]

theorem parseI64_toString {i : Int} (hlow : -2 ^ 63 ≤ i) (hhigh : i < 2 ^ 63) :
    parseI64 (toString i).toList = some i := by
  cases i with
  | ofNat n =>
    have hn : n < 2 ^ 63 := by
      have := Int.ofNat_lt.mp hhigh
      exact this
    obtain ⟨c, l, hcons, hc⟩ := toDigits_cons n
    have htext : (toString (Int.ofNat n)).toList = Nat.toDigits 10 n := Nat.toList_repr
    rw [htext]
    unfold parseI64
    split
    · next heq =>
      rw [heq] at hcons
      obtain ⟨rfl, -⟩ := List.cons.inj hcons
      exact absurd hc (by decide)
    · next heq =>
      rw [heq] at hcons
      obtain ⟨rfl, -⟩ := List.cons.inj hcons
      exact absurd hc (by decide)
    · rw [parseDigits_toDigits, Option.bind_some, if_pos hn]
      rfl
  | negSucc n =>
    have hn : n + 1 ≤ 2 ^ 63 := by
      have heq : Int.negSucc n = -((n + 1 : Nat) : Int) := rfl
      rw [heq] at hlow
      omega
    have htext : (toString (Int.negSucc n)).toList = '-' :: Nat.toDigits 10 (n + 1) := by
      show ("-" ++ (n + 1).repr).toList = _
      rw [String.toList_append, Nat.toList_repr]
      rfl
    rw [htext]
    show (parseDigits (Nat.toDigits 10 (n + 1))).bind _ = _
    rw [parseDigits_toDigits, Option.bind_some, if_pos hn]
    rfl

theorem isDigit_of_parseDigits {l : List Char} {n : Nat} (h : parseDigits l = some n) {c : Char}
    (hc : c ∈ l) :
    c.isDigit = true := by
  unfold parseDigits at h
  split at h
  · next hall => exact List.all_eq_true.mp hall.2 c hc
  · cases h

theorem mem_of_parseI64 {l : List Char} {i : Int} (h : parseI64 l = some i) {c : Char}
    (hc : c ∈ l) :
    c.isDigit = true ∨ c = '+' ∨ c = '-' := by
  unfold parseI64 at h
  split at h
  · obtain ⟨n, hn, -⟩ := Option.bind_eq_some_iff.mp h
    rcases List.mem_cons.mp hc with rfl | hc
    · exact Or.inr (Or.inl rfl)
    · exact Or.inl (isDigit_of_parseDigits hn hc)
  · obtain ⟨n, hn, -⟩ := Option.bind_eq_some_iff.mp h
    rcases List.mem_cons.mp hc with rfl | hc
    · exact Or.inr (Or.inr rfl)
    · exact Or.inl (isDigit_of_parseDigits hn hc)
  · obtain ⟨n, hn, -⟩ := Option.bind_eq_some_iff.mp h
    exact Or.inl (isDigit_of_parseDigits hn hc)

/-! ## The order of texts that end in a number -/

/-- The number of decimal digits. -/
def decimalLength (n : Nat) : Nat := (Nat.toDigits 10 n).length

theorem append_lt_append_iff {α : Type} [LinearOrder α] {s t : List α} (u : List α) : ∀ v : List α,
    u.length = v.length → (u ++ s < v ++ t ↔ u < v ∨ u = v ∧ s < t) := by
  induction u with
  | nil =>
    intro v h
    obtain rfl := List.length_eq_zero_iff.mp h.symm
    simp
  | cons a u ih =>
    intro v h
    obtain ⟨b, v, rfl⟩ := List.exists_of_length_succ v h.symm
    rw [List.cons_append, List.cons_append, List.cons_lt_cons_iff, List.cons_lt_cons_iff,
      ih v (Nat.succ.inj h), List.cons.injEq]
    tauto

theorem append_le_append_iff {α : Type} [LinearOrder α] {s t u v : List α}
    (h : u.length = v.length) :
    u ++ s ≤ v ++ t ↔ u < v ∨ u = v ∧ s ≤ t := by
  rw [← not_lt, append_lt_append_iff v u h.symm]
  rcases lt_trichotomy u v with hlt | rfl | hlt
  · simp [hlt, hlt.not_gt, hlt.ne']
  · simp
  · simp [hlt, hlt.not_gt, hlt.ne']

section digits

variable {u v : List Char}

/-- The number that a text of digits denotes. -/
def value (l : List Char) : Nat := Nat.ofDigitChars 10 l 0

theorem value_toDigits (n : Nat) : value (Nat.toDigits 10 n) = n := Nat.ofDigitChars_ten_toDigits

/-- A name with a number at its end says which number. -/
theorem append_toString_injective (start : String) : Function.Injective
    fun i : Nat => start ++ toString i := by
  intro i j h
  have htext : (start ++ toString i).toList = (start ++ toString j).toList :=
    congrArg String.toList h
  rw [String.toList_append, String.toList_append] at htext
  have hdigits : Nat.toDigits 10 i = Nat.toDigits 10 j := by
    have htail := List.append_cancel_left htext
    rw [← Nat.toList_repr, ← Nat.toList_repr]
    exact htail
  rw [← value_toDigits i, hdigits, value_toDigits]

theorem value_append (l m : List Char) : value (l ++ m) = 10 ^ m.length * value l + value m := by
  unfold value
  rw [Nat.ofDigitChars_append, Nat.ofDigitChars_eq_ofDigitChars_zero]

theorem value_cons (c : Char) (l : List Char) :
    value (c :: l) = 10 ^ l.length * (c.toNat - 48) + value l := by
  have h := value_append [c] l
  have hc : value [c] = c.toNat - 48 := by
    unfold value
    rw [Nat.ofDigitChars_cons, Nat.ofDigitChars_nil]
    simp
  rw [List.singleton_append, hc] at h
  exact h

theorem digit_bounds {c : Char} (h : c.isDigit = true) : 48 ≤ c.toNat ∧ c.toNat ≤ 57 :=
  Char.isDigit_iff_toNat.mp h

theorem value_lt (l : List Char) (h : ∀ c ∈ l, c.isDigit = true) : value l < 10 ^ l.length := by
  induction l with
  | nil => simp [value]
  | cons c l ih =>
    have hl := ih fun d hd => h d (List.mem_cons_of_mem c hd)
    have hc := digit_bounds (h c List.mem_cons_self)
    have hmul : 10 ^ l.length * (c.toNat - 48) ≤ 10 ^ l.length * 9 :=
      Nat.mul_le_mul_left _ (by omega)
    rw [value_cons, List.length_cons, Nat.pow_succ]
    omega

theorem lt_iff_value_lt (u : List Char) : ∀ v : List Char, u.length = v.length →
    (∀ c ∈ u, c.isDigit = true) →
    (∀ c ∈ v, c.isDigit = true) → (u < v ↔ value u < value v) := by
  induction u with
  | nil =>
    intro v h _ _
    obtain rfl := List.length_eq_zero_iff.mp h.symm
    simp
  | cons a u ih =>
    intro v h hu hv
    obtain ⟨b, v, rfl⟩ := List.exists_of_length_succ v h.symm
    have hlen : u.length = v.length := Nat.succ.inj h
    have hu' : ∀ c ∈ u, c.isDigit = true := fun c hc => hu c (List.mem_cons_of_mem a hc)
    have hv' : ∀ c ∈ v, c.isDigit = true := fun c hc => hv c (List.mem_cons_of_mem b hc)
    have ha := digit_bounds (hu a List.mem_cons_self)
    have hb := digit_bounds (hv b List.mem_cons_self)
    have hltu := value_lt u hu'
    have hltv := value_lt v hv'
    rw [List.cons_lt_cons_iff, ih v hlen hu' hv', value_cons, value_cons, hlen]
    rw [hlen] at hltu
    generalize 10 ^ v.length = p at hltu hltv
    rcases Nat.lt_trichotomy a.toNat b.toNat with hlt | heq | hgt
    · have hmul : p * (a.toNat - 48 + 1) ≤ p * (b.toNat - 48) := Nat.mul_le_mul_left _ (by omega)
      rw [Nat.mul_succ] at hmul
      exact iff_of_true (Or.inl hlt) (by omega)
    · obtain rfl := Char.toNat_inj.mp heq
      simp
    · have hmul : p * (b.toNat - 48 + 1) ≤ p * (a.toNat - 48) := Nat.mul_le_mul_left _ (by omega)
      rw [Nat.mul_succ] at hmul
      refine iff_of_false ?_ (by omega)
      rintro (hlt | ⟨rfl, -⟩)
      · exact absurd (show a.toNat < b.toNat from hlt) (by omega)
      · omega

theorem eq_iff_value_eq (h : u.length = v.length) (hu : ∀ c ∈ u, c.isDigit = true)
    (hv : ∀ c ∈ v, c.isDigit = true) : u = v ↔ value u = value v := by
  refine ⟨fun heq => by rw [heq], fun heq => ?_⟩
  rcases lt_trichotomy u v with hlt | huv | hlt
  · have := (lt_iff_value_lt u v h hu hv).mp hlt
    omega
  · exact huv
  · have := (lt_iff_value_lt v u h.symm hv hu).mp hlt
    omega

end digits

theorem decimalLength_mono {c d : Nat} (h : c ≤ d) : decimalLength c ≤ decimalLength d := by
  have hpos : 0 < decimalLength d := Nat.length_toDigits_pos
  have hd : d < 10 ^ decimalLength d :=
    (Nat.length_toDigits_le_iff (by decide) hpos).mp (Nat.le_refl _)
  exact (Nat.length_toDigits_le_iff (by decide) hpos).mpr (Nat.lt_of_le_of_lt h hd)

/-- **A smaller number does not sort after a larger one** exactly when it is at most what the
leading digits of the larger one say, the texts ending alike in something that sorts before
digits. -/
theorem decimal_append_le_iff {c d : Nat} (h : c ≤ d) {a : Char} (ha : a.toNat < 48)
    (s : List Char) :
    Nat.toDigits 10 c ++ a :: s ≤ Nat.toDigits 10 d ++ a :: s ↔
      c ≤ d / 10 ^ (decimalLength d - decimalLength c) := by
  have hlen : decimalLength c ≤ decimalLength d := decimalLength_mono h
  have hu : ∀ x ∈ Nat.toDigits 10 c, x.isDigit = true := fun x hx => isDigit_of_mem_toDigits hx
  have hv : ∀ x ∈ Nat.toDigits 10 d, x.isDigit = true := fun x hx => isDigit_of_mem_toDigits hx
  -- the leading digits of `d`, as many as `c` has, and the others
  obtain ⟨v, w, hsplit, hvlen⟩ : ∃ v w, Nat.toDigits 10 d = v ++ w ∧ v.length = decimalLength c :=
    ⟨_, _, (List.take_append_drop (decimalLength c) _).symm, List.length_take_of_le hlen⟩
  have hwlen : w.length = decimalLength d - decimalLength c := by
    have := congrArg List.length hsplit
    rw [List.length_append, hvlen] at this
    unfold decimalLength at this ⊢
    omega
  rw [hsplit] at hv
  have hv' : ∀ x ∈ v, x.isDigit = true := fun x hx => hv x (List.mem_append_left w hx)
  have hw : ∀ x ∈ w, x.isDigit = true := fun x hx => hv x (List.mem_append_right v hx)
  have hdiv : d / 10 ^ (decimalLength d - decimalLength c) = value v := by
    have hd : d = 10 ^ w.length * value v + value w := by
      rw [← value_append, ← hsplit, value_toDigits]
    have hpos : 0 < 10 ^ w.length := Nat.pow_pos (by decide)
    rw [← hwlen, hd, Nat.mul_add_div hpos, Nat.div_eq_of_lt (value_lt w hw), Nat.add_zero]
  have hrest : a :: s ≤ w ++ a :: s := by
    cases w with
    | nil => exact le_rfl
    | cons b w =>
      have hb := digit_bounds (hw b List.mem_cons_self)
      have hab : a < b := show a.toNat < b.toNat by omega
      exact le_of_lt (List.cons_lt_cons_iff.mpr (Or.inl hab))
  rw [hsplit, List.append_assoc, append_le_append_iff hvlen.symm, hdiv,
    lt_iff_value_lt _ v hvlen.symm hu hv', eq_iff_value_eq hvlen.symm hu hv', value_toDigits]
  simp only [hrest, and_true]
  omega

end Text
