import Mathlib.Data.List.TakeWhile
import Osquery.Foundation.Numeral

/-!
# Texts that denote integers

A text denotes an integer when the whole of it is an optional sign and decimal digits. The
conversions of the C++ library read such a text as its integer, within the range of their type;
the unsigned one adds 2⁶⁴ to a negative integer.
-/

namespace Osquery.Foundation.DecimalText

open Numeral

/-- The integer that the whole of a text denotes in decimal. -/
def decimal (s : String) : Option ℤ :=
  let text := splitSign s.toList
  if text.2 = [] ∨ text.2.any (fun c => !c.isDigit) then none
  else
    let m := Nat.ofDigitChars 10 text.2 0
    some (if text.1 then -(m : ℤ) else m)

/-- An integer with a sign before its magnitude. -/
def withSign (negative : Bool) (m : ℕ) : ℤ := if negative then -(m : ℤ) else m

@[simp] theorem natAbs_withSign (negative : Bool) (m : ℕ) : (withSign negative m).natAbs = m := by
  cases negative <;> simp [withSign]

theorem splitSign_cases (cs : List Char) :
    (∃ rest, cs = '-' :: rest ∧ splitSign cs = (true, rest)) ∨
      (∃ rest, cs = '+' :: rest ∧ splitSign cs = (false, rest)) ∨
      splitSign cs = (false, cs) := by
  unfold splitSign
  split
  · exact Or.inl ⟨_, rfl, rfl⟩
  · exact Or.inr (Or.inl ⟨_, rfl, rfl⟩)
  · exact Or.inr (Or.inr rfl)

/-- White space is not skipped before a sign or a digit. -/
theorem dropWhile_isSpace {cs : List Char} (hne : (splitSign cs).2 ≠ [])
    (hdigits : ∀ c ∈ (splitSign cs).2, c.isDigit = true) : cs.dropWhile isSpace = cs := by
  rcases splitSign_cases cs with ⟨rest, rfl, -⟩ | ⟨rest, rfl, -⟩ | hplain
  · rfl
  · rfl
  · rw [hplain] at hne hdigits
    obtain ⟨c, rest, rfl⟩ := List.exists_cons_of_ne_nil hne
    have hc := isDigit_not_space (hdigits c List.mem_cons_self)
    rw [List.dropWhile_cons, if_neg (by simp [hc])]

/-- The sign and the digits of a text that denotes an integer. -/
theorem decimal_digits {s : String} {n : ℤ} (h : decimal s = some n) :
    (splitSign s.toList).2 ≠ [] ∧ (∀ c ∈ (splitSign s.toList).2, c.isDigit = true) ∧
      n = withSign (splitSign s.toList).1 (Nat.ofDigitChars 10 (splitSign s.toList).2 0) := by
  rw [decimal] at h
  simp only at h
  split at h
  · exact absurd h (by simp)
  · next hdigits =>
      rw [not_or, List.any_eq_true] at hdigits
      refine ⟨hdigits.1, fun c hc => ?_, (Option.some.inj h).symm⟩
      by_contra hno
      exact hdigits.2 ⟨c, hc, by simpa using hno⟩

/-- A text that denotes an integer begins with it. -/
theorem leading_of_decimal {s : String} {n : ℤ} (h : decimal s = some n) :
    ∃ negative, leading s = some (negative, n.natAbs) ∧ n = withSign negative n.natAbs := by
  obtain ⟨hne, hdigits, rfl⟩ := decimal_digits h
  refine ⟨(splitSign s.toList).1, ?_, by rw [natAbs_withSign]⟩
  have hall : (splitSign s.toList).2.takeWhile Char.isDigit = (splitSign s.toList).2 :=
    List.takeWhile_eq_self_iff.mpr hdigits
  rw [leading, dropWhile_isSpace hne hdigits, natAbs_withSign]
  simp only [hall]
  rw [if_neg hne]

/-! ### Conversions -/

/-- A signed conversion gives the integers of its range. -/
theorem toOption_withSign {negative : Bool} {n : ℤ} (hn : n = withSign negative n.natAbs) {b : ℕ}
    (hb : 0 < b) {B : ℤ} (hB : (b : ℤ) = B) :
    (if negative then
        if n.natAbs ≤ b then Except.ok (-(n.natAbs : ℤ)) else .error ConversionError.outOfRange
      else if n.natAbs < b then .ok (n.natAbs : ℤ) else .error .outOfRange).toOption =
      if -B ≤ n ∧ n < B then some n else none := by
  subst hB
  cases negative with
  | true =>
      rw [withSign, if_pos rfl] at hn
      simp only [if_true]
      split
      · rw [if_pos (by omega), ← hn]
        rfl
      · rw [if_neg (by omega)]
        rfl
  | false =>
      rw [withSign, if_neg Bool.noConfusion] at hn
      simp only [Bool.false_eq_true, if_false]
      split
      · rw [if_pos (by omega), ← hn]
        rfl
      · rw [if_neg (by omega)]
        rfl

theorem stoi_of_decimal {s : String} {n : ℤ} (h : decimal s = some n) :
    (stoi s).toOption = if -2 ^ 31 ≤ n ∧ n < 2 ^ 31 then some n else none := by
  obtain ⟨negative, hleading, hn⟩ := leading_of_decimal h
  rw [stoi, hleading]
  exact toOption_withSign hn (by decide) (by norm_cast)

theorem stoll_of_decimal {s : String} {n : ℤ} (h : decimal s = some n) :
    (stoll s).toOption = if -2 ^ 63 ≤ n ∧ n < 2 ^ 63 then some n else none := by
  obtain ⟨negative, hleading, hn⟩ := leading_of_decimal h
  rw [stoll, hleading]
  exact toOption_withSign hn (by decide) (by norm_cast)

/-- A negative integer comes out as its complement. -/
theorem stoull_of_decimal {s : String} {n : ℤ} (h : decimal s = some n) :
    (stoull s).toOption.map (fun m => (m.toNat : ℤ)) =
      if n.natAbs < 2 ^ 64 then some (if n < 0 then n + 2 ^ 64 else n) else none := by
  obtain ⟨negative, hleading, hn⟩ := leading_of_decimal h
  rw [stoull, hleading]
  simp only
  split
  · next hlt =>
      have hmod : n.natAbs % 2 ^ 64 = n.natAbs := Nat.mod_eq_of_lt hlt
      cases negative with
      | true =>
          rw [withSign, if_pos rfl] at hn
          have hvalue : (0 - UInt64.ofNat n.natAbs).toNat = (2 ^ 64 - n.natAbs) % 2 ^ 64 := by
            rw [UInt64.toNat_sub, UInt64.toNat_ofNat', hmod, UInt64.toNat_zero, Nat.add_zero]
          simp only [if_true, Except.toOption, Option.map_some, hvalue, Option.some.injEq]
          split <;> omega
      | false =>
          rw [withSign, if_neg Bool.noConfusion] at hn
          simp only [Bool.false_eq_true, if_false, Except.toOption, Option.map_some,
            UInt64.toNat_ofNat', hmod, Option.some.injEq]
          split <;> omega
  · rfl

end Osquery.Foundation.DecimalText
