import Mathlib.Algebra.Order.Ring.Nat
import Mathlib.Tactic.Ring

/-!
# Numbers as bytes

A number in a fixed number of bytes, the most significant byte first. A number that does not fit
loses its high bytes, so what is read back is the number modulo `256 ^ w`.
-/

namespace Bytes

def toBigEndian : Nat → Nat → List UInt8
  | 0, _ => []
  | w + 1, n => UInt8.ofNat (n / 256 ^ w) :: toBigEndian w n

def ofBigEndian (l : List UInt8) : Nat := l.foldl (fun n b => 256 * n + b.toNat) 0

theorem length_toBigEndian (w n : Nat) : (toBigEndian w n).length = w := by
  induction w with
  | zero => rfl
  | succ w ih => rw [toBigEndian, List.length_cons, ih]

theorem foldl_toBigEndian (w n acc : Nat) :
    (toBigEndian w n).foldl (fun n b => 256 * n + b.toNat) acc = acc * 256 ^ w + n % 256 ^ w := by
  induction w generalizing acc with
  | zero => simp [toBigEndian, Nat.mod_one]
  | succ w ih =>
    have hdigit : (UInt8.ofNat (n / 256 ^ w)).toNat = n / 256 ^ w % 256 := UInt8.toNat_ofNat'
    rw [toBigEndian, List.foldl_cons, ih, hdigit, Nat.mod_pow_succ]
    generalize n / 256 ^ w % 256 = digit
    ring

theorem ofBigEndian_toBigEndian (w n : Nat) : ofBigEndian (toBigEndian w n) = n % 256 ^ w := by
  unfold ofBigEndian
  rw [foldl_toBigEndian, Nat.zero_mul, Nat.zero_add]

end Bytes
