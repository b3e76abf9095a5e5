import Mathlib.Data.Int.Log
import Mathlib.Data.Rat.Floor

/-!
# Numbers of double precision

A positive number is rounded to 53 binary digits, to the nearer neighbour and to the even one
in the middle. The error is at most the 2 ^ 53rd part of the number, and smaller natural
numbers are exact. The quotient of two natural numbers, the first below 2 ^ 53, is then never
rounded across the next natural number.

## Implementation notes

Exponents have no bounds, which is right for numbers that are far from the least and the
greatest double.
-/

namespace Osquery.Foundation.DoublePrecision

/-- The nearest integer, the even one in the middle. -/
def nearest (q : ℚ) : ℤ :=
  if q - ⌊q⌋ < 1 / 2 then ⌊q⌋
  else if 1 / 2 < q - ⌊q⌋ then ⌊q⌋ + 1
  else if ⌊q⌋ % 2 = 0 then ⌊q⌋
  else ⌊q⌋ + 1

/-- The place of the last of 53 digits. -/
def exponent (q : ℚ) : ℤ := Int.log 2 q - 52

def double (q : ℚ) : ℚ := nearest (q / 2 ^ exponent q) * 2 ^ exponent q

theorem abs_nearest_sub_le (q : ℚ) : |nearest q - q| ≤ 1 / 2 := by
  have hle := Int.floor_le q
  have hlt := Int.lt_floor_add_one q
  rw [abs_le, nearest]
  split_ifs <;> push_cast <;> constructor <;> linarith

theorem nearest_intCast (n : ℤ) : nearest n = n := by
  simp [nearest]

/-- The error is at most the 2 ^ 53rd part. -/
theorem abs_double_sub_le {q : ℚ} (hq : 0 < q) : |double q - q| ≤ q / 2 ^ 53 := by
  have hpos : (0 : ℚ) < 2 ^ exponent q := zpow_pos (by norm_num) _
  have hlog : (2 : ℚ) ^ Int.log 2 q ≤ q := Int.zpow_log_le_self (by norm_num) hq
  have hexponent : (2 : ℚ) ^ exponent q = 2 ^ Int.log 2 q / 2 ^ 52 := by
    rw [exponent, zpow_sub₀ (by norm_num)]
    norm_num
  have hfactor : double q - q =
      (nearest (q / 2 ^ exponent q) - q / 2 ^ exponent q) * 2 ^ exponent q := by
    rw [double, sub_mul, div_mul_cancel₀ _ hpos.ne']
  calc |double q - q|
    _ = |nearest (q / 2 ^ exponent q) - q / 2 ^ exponent q| * 2 ^ exponent q := by
        rw [hfactor, abs_mul, abs_of_pos hpos]
    _ ≤ 1 / 2 * 2 ^ exponent q :=
        mul_le_mul_of_nonneg_right (abs_nearest_sub_le _) hpos.le
    _ ≤ q / 2 ^ 53 := by
        rw [hexponent]
        linarith

/-- Natural numbers of at most 53 digits are exact. -/
theorem double_natCast {n : ℕ} (h : n < 2 ^ 53) : double n = n := by
  obtain rfl | hn := Nat.eq_zero_or_pos n
  · simp [double, nearest]
  have hlog : Nat.log 2 n ≤ 52 := by
    have hlt : Nat.log 2 n < 53 := Nat.log_lt_of_lt_pow hn.ne' h
    omega
  have hexponent : exponent (n : ℚ) = -((52 - Nat.log 2 n : ℕ) : ℤ) := by
    rw [exponent, Int.log_natCast]
    omega
  have hint : (n : ℚ) / 2 ^ exponent (n : ℚ) = ((n * 2 ^ (52 - Nat.log 2 n) : ℕ) : ℤ) := by
    rw [hexponent, zpow_neg, zpow_natCast, div_inv_eq_mul]
    push_cast
    rfl
  have hpos : (0 : ℚ) < 2 ^ exponent (n : ℚ) := zpow_pos (by norm_num) _
  rw [double, hint, nearest_intCast, ← hint, div_mul_cancel₀ _ hpos.ne']

theorem ceil_eq_succ {q : ℚ} {m : ℕ} (hlt : m < q) (hle : q ≤ m + 1) : ⌈q⌉₊ = m + 1 := by
  apply (Nat.ceil_eq_iff m.succ_ne_zero).mpr
  constructor
  · exact hlt
  · push_cast
    exact hle

/-- Rounding a quotient does not change the next natural number. -/
theorem ceil_double_div {n d : ℕ} (hn : n < 2 ^ 53) (hd : 0 < d) :
    ⌈double ((n : ℚ) / d)⌉₊ = ⌈(n : ℚ) / d⌉₊ := by
  have hd' : (0 : ℚ) < d := by exact_mod_cast hd
  have hsplit : (n : ℚ) / d = (n / d : ℕ) + ((n % d : ℕ) : ℚ) / d := by
    field_simp
    exact_mod_cast (Nat.div_add_mod n d).symm
  obtain hzero | hrest := Nat.eq_zero_or_pos (n % d)
  · have hquotient : n / d < 2 ^ 53 := lt_of_le_of_lt (Nat.div_le_self n d) hn
    rw [hsplit, hzero, Nat.cast_zero, zero_div, add_zero, double_natCast hquotient]
  · have hpos : 0 < n := Nat.pos_of_ne_zero fun h => by simp [h] at hrest
    have herror : |double ((n : ℚ) / d) - n / d| < 1 / d := by
      apply lt_of_le_of_lt (abs_double_sub_le (div_pos (by exact_mod_cast hpos) hd'))
      have hn' : (n : ℚ) < 2 ^ 53 := by exact_mod_cast hn
      rw [div_right_comm]
      exact div_lt_div_of_pos_right ((div_lt_one (by positivity)).mpr hn') hd'
    have hlow : 1 / (d : ℚ) ≤ ((n % d : ℕ) : ℚ) / d :=
      div_le_div_of_nonneg_right (by exact_mod_cast hrest) hd'.le
    have hhigh : ((n % d : ℕ) : ℚ) / d ≤ 1 - 1 / d := by
      have hlt : ((n % d : ℕ) : ℚ) ≤ d - 1 := by
        have hle : n % d + 1 ≤ d := Nat.mod_lt n hd
        have hcast : ((n % d : ℕ) : ℚ) + 1 ≤ d := by exact_mod_cast hle
        linarith
      rw [one_sub_div hd'.ne']
      exact div_le_div_of_nonneg_right hlt hd'.le
    obtain ⟨hbelow, habove⟩ := abs_lt.mp herror
    rw [ceil_eq_succ (m := n / d) (by linarith) (by linarith),
      ceil_eq_succ (m := n / d) (by linarith) (by linarith)]

end Osquery.Foundation.DoublePrecision

/-!
## Numbers of single precision

A number is rounded to 24 binary digits. Natural numbers below 2 ^ 24 are exact, and what is at
most such a number is rounded to at most that number.

### Implementation notes

Exponents have no bounds, as for double precision.
-/

namespace Osquery.Foundation.SinglePrecision

open DoublePrecision (nearest nearest_intCast)

/-- The place of the last of 24 digits. -/
def exponent (q : ℚ) : ℤ := Int.log 2 q - 23

def single (q : ℚ) : ℚ := nearest (q / 2 ^ exponent q) * 2 ^ exponent q

theorem nearest_le {q : ℚ} {n : ℤ} (h : q ≤ n) : nearest q ≤ n := by
  have hfloor : ⌊q⌋ ≤ n := by
    have hcast : (⌊q⌋ : ℚ) ≤ n := (Int.floor_le q).trans h
    exact_mod_cast hcast
  obtain hlt | heq := hfloor.lt_or_eq
  · rw [nearest]
    split_ifs <;> omega
  · have hq : q = n := le_antisymm h (heq ▸ Int.floor_le q)
    rw [hq, nearest_intCast]

theorem nearest_nonneg {q : ℚ} (h : 0 ≤ q) : 0 ≤ nearest q := by
  have hfloor : 0 ≤ ⌊q⌋ := Int.floor_nonneg.mpr h
  rw [nearest]
  split_ifs <;> omega

theorem zero_lt_zpow_exponent (q : ℚ) : (0 : ℚ) < 2 ^ exponent q := zpow_pos (by norm_num) _

theorem single_nonneg {q : ℚ} (h : 0 ≤ q) : 0 ≤ single q := by
  have hdiv : 0 ≤ q / 2 ^ exponent q := div_nonneg h (zero_lt_zpow_exponent q).le
  have hnearest : (0 : ℚ) ≤ nearest (q / 2 ^ exponent q) := by exact_mod_cast nearest_nonneg hdiv
  exact mul_nonneg hnearest (zero_lt_zpow_exponent q).le

/-- A number of few digits is a whole number of last places. -/
theorem natCast_div_zpow {q : ℚ} {n : ℕ} (hq : 0 < q) (hn : n < 2 ^ 24) (h : q ≤ n) :
    ∃ m : ℤ, (n : ℚ) / 2 ^ exponent q = m := by
  have hlog : Int.log 2 q ≤ 23 := by
    have hpow : (2 : ℚ) ^ Int.log 2 q ≤ q := Int.zpow_log_le_self (by norm_num) hq
    have hlt : (2 : ℚ) ^ Int.log 2 q < 2 ^ (24 : ℤ) := by
      have hn' : (n : ℚ) < 2 ^ 24 := by exact_mod_cast hn
      exact (hpow.trans h).trans_lt hn'
    have hlt := (zpow_lt_zpow_iff_right₀ (by norm_num : (1 : ℚ) < 2)).mp hlt
    omega
  obtain ⟨k, hk⟩ := Int.eq_ofNat_of_zero_le (by omega : 0 ≤ 23 - Int.log 2 q)
  have hexponent : exponent q = -(k : ℤ) := by
    rw [exponent, ← hk]
    ring
  refine ⟨n * 2 ^ k, ?_⟩
  rw [hexponent, zpow_neg, zpow_natCast, div_inv_eq_mul]
  push_cast
  rfl

theorem single_le_natCast {q : ℚ} {n : ℕ} (hq : 0 ≤ q) (hn : n < 2 ^ 24) (h : q ≤ n) :
    single q ≤ n := by
  obtain rfl | hq := hq.eq_or_lt
  · have hzero : single 0 = 0 := by simp [single, nearest]
    rw [hzero]
    exact_mod_cast Nat.zero_le n
  · obtain ⟨m, hm⟩ := natCast_div_zpow hq hn h
    have hpos := zero_lt_zpow_exponent q
    have hle : q / 2 ^ exponent q ≤ m := by
      rw [← hm]
      exact div_le_div_of_nonneg_right h hpos.le
    have hnearest : (nearest (q / 2 ^ exponent q) : ℚ) ≤ m := by exact_mod_cast nearest_le hle
    calc single q
        = nearest (q / 2 ^ exponent q) * 2 ^ exponent q := rfl
      _ ≤ m * 2 ^ exponent q := mul_le_mul_of_nonneg_right hnearest hpos.le
      _ = n := by rw [← hm, div_mul_cancel₀ _ hpos.ne']

/-- Natural numbers of at most 24 digits are exact. -/
theorem single_natCast {n : ℕ} (hn : n < 2 ^ 24) : single n = n := by
  obtain rfl | hpos := Nat.eq_zero_or_pos n
  · simp [single, nearest]
  · obtain ⟨m, hm⟩ := natCast_div_zpow (q := n) (by exact_mod_cast hpos) hn le_rfl
    rw [single, hm, nearest_intCast, ← hm, div_mul_cancel₀ _ (zero_lt_zpow_exponent n).ne']

end Osquery.Foundation.SinglePrecision
