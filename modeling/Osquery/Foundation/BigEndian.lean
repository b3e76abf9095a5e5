import Mathlib.Algebra.Ring.Nat
import Mathlib.Data.List.Induction

/-!
# Numbers as bytes, the highest first

A number is written in a fixed width of bytes, and bytes are read as a number. What is read
back is the number up to the width.
-/

namespace Osquery.Foundation.BigEndian

/-- The lowest bytes of a number. -/
def bytes : ℕ → ℕ → List UInt8
  | 0, _ => []
  | width + 1, n => bytes width (n / 256) ++ [UInt8.ofNat n]

/-- The number that bytes stand for. -/
def value (data : List UInt8) : ℕ := data.foldl (fun n byte => n * 256 + byte.toNat) 0

theorem length_bytes (width n : ℕ) : (bytes width n).length = width := by
  induction width generalizing n with
  | zero => rfl
  | succ width ih => rw [bytes, List.length_append, ih, List.length_singleton]

theorem value_concat (data : List UInt8) (byte : UInt8) :
    value (data ++ [byte]) = value data * 256 + byte.toNat := by
  rw [value, List.foldl_append]
  rfl

theorem value_bytes (width n : ℕ) : value (bytes width n) = n % 256 ^ width := by
  induction width generalizing n with
  | zero => exact (Nat.mod_one n).symm
  | succ width ih =>
      calc value (bytes (width + 1) n)
          = n / 256 % 256 ^ width * 256 + n % 256 := by rw [bytes, value_concat, ih]; rfl
        _ = n % (256 * 256 ^ width) := by rw [Nat.mod_mul]; omega
        _ = n % 256 ^ (width + 1) := by rw [Nat.pow_succ, Nat.mul_comm]

/-- A number within the width is read back. -/
theorem value_bytes_of_lt {width n : ℕ} (h : n < 256 ^ width) : value (bytes width n) = n := by
  rw [value_bytes, Nat.mod_eq_of_lt h]

theorem value_lt (data : List UInt8) : value data < 256 ^ data.length := by
  induction data using List.reverseRecOn with
  | nil => decide
  | append_singleton data byte ih =>
      have hbyte := byte.toNat_lt
      rw [value_concat, List.length_append, List.length_singleton, Nat.pow_succ]
      omega

end Osquery.Foundation.BigEndian
