import Mathlib.Algebra.Group.Nat.Defs
import Mathlib.Data.List.Basic
import Mathlib.Tactic.Common

/-!
# Numbers as little-endian bytes

`toLE k n` are the low `k` bytes of `n`, `readLE k` takes a number of `k` bytes off the front of a list. Reading
what was written gives the number back, reduced to its width, and leaves what follows alone (`readLE_toLE`).
-/

namespace Bytes

def toLE : ℕ → ℕ → List UInt8
  | 0, _ => []
  | k + 1, n => UInt8.ofNat n :: toLE k (n / 256)

def ofLE : List UInt8 → ℕ
  | [] => 0
  | byte :: bytes => byte.toNat + 256 * ofLE bytes

def readLE (k : ℕ) (bytes : List UInt8) : ℕ × List UInt8 := (ofLE (bytes.take k), bytes.drop k)

@[simp] theorem length_toLE (k n : ℕ) : (toLE k n).length = k := by
  induction k generalizing n with
  | zero => rfl
  | succ k ih => rw [toLE, List.length_cons, ih]

theorem ofLE_toLE (k n : ℕ) : ofLE (toLE k n) = n % 256 ^ k := by
  induction k generalizing n with
  | zero => simp [toLE, ofLE, Nat.mod_one]
  | succ k ih =>
    have hbyte : (UInt8.ofNat n).toNat = n % 256 := by simp
    rw [toLE, ofLE, ih, hbyte, Nat.pow_succ, Nat.mul_comm (256 ^ k) 256, Nat.mod_mul]

@[simp] theorem readLE_toLE (k n : ℕ) (rest : List UInt8) :
    readLE k (toLE k n ++ rest) = (n % 256 ^ k, rest) := by
  have hlen := length_toLE k n
  rw [readLE, List.take_left' hlen, List.drop_left' hlen, ofLE_toLE]

end Bytes
