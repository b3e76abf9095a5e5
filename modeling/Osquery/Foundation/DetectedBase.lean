import Osquery.Foundation.DecimalText
import Osquery.Foundation.JsonTokens

/-!
# Numerals whose base is detected

With the base zero, the conversions of the C library take a numeral for hexadecimal after `0x`,
for octal after another zero, and for decimal otherwise. They read as many digits of the base as
there are. A decimal numeral with zeros in front is therefore read as an octal one, which is a
smaller number unless both are below eight.
-/

namespace Osquery.Foundation.DetectedBase

open Numeral DecimalText JsonTokens

def isOctalDigit (c : Char) : Bool := 48 ≤ c.toNat && c.toNat ≤ 55

def isHexDigit (c : Char) : Bool := (hexDigitValue c).isSome

/-- The value of hexadecimal digits. -/
def ofHexDigits (digits : List Char) : ℕ :=
  digits.foldl (fun value c => 16 * value + (hexDigitValue c).getD 0) 0

/-- The hexadecimal digits after `0x`, if there are any. -/
def hexDigits : List Char → Option (List Char)
  | '0' :: x :: rest =>
      if (x = 'x' ∨ x = 'X') ∧ rest.takeWhile isHexDigit ≠ [] then
        some (rest.takeWhile isHexDigit)
      else none
  | _ => none

/-- The number that a text without white space and a sign starts with. -/
def magnitude (cs : List Char) : Option ℕ :=
  match hexDigits cs with
  | some digits => some (ofHexDigits digits)
  | none =>
      if cs.head? = some '0' then some (Nat.ofDigitChars 8 (cs.takeWhile isOctalDigit) 0)
      else
        let digits := cs.takeWhile Char.isDigit
        if digits = [] then none else some (Nat.ofDigitChars 10 digits 0)

/-- The number with a sign, when it is one of 64 bits. -/
def signed (negative : Bool) (m : ℕ) : Except ConversionError ℤ :=
  if -2 ^ 63 ≤ withSign negative m ∧ withSign negative m < 2 ^ 63 then .ok (withSign negative m)
  else .error .outOfRange

/-- `std::stoll` with the base zero. -/
def stollDetected (s : String) : Except ConversionError ℤ :=
  let text := splitSign (s.toList.dropWhile isSpace)
  match magnitude text.2 with
  | none => .error .invalidArgument
  | some m => signed text.1 m

/-- The digits of a text begin with a zero. -/
def LeadingZero (s : String) : Prop := (splitSign s.toList).2.head? = some '0'

instance (s : String) : Decidable (LeadingZero s) := inferInstanceAs (Decidable (_ = _))

/-! ### Octal digits -/

theorem le_ofDigitChars (cs : List Char) (n : ℕ) : n ≤ Nat.ofDigitChars 10 cs n := by
  induction cs generalizing n with
  | nil => exact le_of_eq Nat.ofDigitChars_nil.symm
  | cons c cs ih =>
      rw [Nat.ofDigitChars_cons]
      have h := ih (10 * n + (c.toNat - '0'.toNat))
      omega

/-- As octal digits, the same digits are a number that is not greater. -/
theorem octal_add_le (cs : List Char) (k : ℕ) {n m : ℕ} (h : n + k ≤ m) :
    Nat.ofDigitChars 8 (cs.takeWhile isOctalDigit) n + k ≤ Nat.ofDigitChars 10 cs m := by
  induction cs generalizing n m with
  | nil =>
      rw [List.takeWhile_nil, Nat.ofDigitChars_nil, Nat.ofDigitChars_nil]
      exact h
  | cons c cs ih =>
      rw [List.takeWhile_cons]
      split
      · rw [Nat.ofDigitChars_cons, Nat.ofDigitChars_cons]
        exact ih (by omega)
      · rw [Nat.ofDigitChars_nil]
        exact h.trans (le_ofDigitChars _ m)

/-- A digit that counts and another one after it make the numbers different. -/
theorem octal_lt_of_pos {cs : List Char} (hne : cs ≠ []) {n : ℕ} (h : 0 < n) :
    Nat.ofDigitChars 8 (cs.takeWhile isOctalDigit) n < Nat.ofDigitChars 10 cs n := by
  obtain ⟨c, cs, rfl⟩ := List.exists_cons_of_ne_nil hne
  rw [List.takeWhile_cons, Nat.ofDigitChars_cons]
  split
  · rw [Nat.ofDigitChars_cons]
    exact octal_add_le cs 1 (by omega)
  · rw [Nat.ofDigitChars_nil]
    have hten := le_ofDigitChars cs (10 * n + (c.toNat - '0'.toNat))
    omega

/-- Decimal digits are read as octal ones of the same number only for a number below eight. -/
theorem octal_eq_iff {cs : List Char} (hcs : ∀ c ∈ cs, c.isDigit = true) :
    Nat.ofDigitChars 8 (cs.takeWhile isOctalDigit) 0 = Nat.ofDigitChars 10 cs 0 ↔
      Nat.ofDigitChars 10 cs 0 < 8 := by
  induction cs with
  | nil => simp
  | cons c cs ih =>
      obtain ⟨hc, hcs⟩ := List.forall_mem_cons.mp hcs
      obtain ⟨hlow, hhigh⟩ := isDigit_iff_toNat.mp hc
      have hzero : '0'.toNat = 48 := rfl
      rw [List.takeWhile_cons, Nat.ofDigitChars_cons]
      have hdigit := le_ofDigitChars cs (10 * 0 + (c.toNat - '0'.toNat))
      split
      · next hoctal =>
          rw [Nat.ofDigitChars_cons]
          simp only [Nat.mul_zero, Nat.zero_add]
          by_cases hnull : c.toNat - '0'.toNat = 0
          · rw [hnull]
            exact ih hcs
          · by_cases hnil : cs = []
            · subst hnil
              simp only [isOctalDigit, Bool.and_eq_true, decide_eq_true_eq] at hoctal
              rw [List.takeWhile_nil, Nat.ofDigitChars_nil, Nat.ofDigitChars_nil]
              omega
            · have hlt := octal_lt_of_pos hnil (Nat.pos_of_ne_zero hnull)
              obtain ⟨c', cs', rfl⟩ := List.exists_cons_of_ne_nil hnil
              have hten := le_ofDigitChars cs'
                (10 * (c.toNat - '0'.toNat) + (c'.toNat - '0'.toNat))
              rw [Nat.ofDigitChars_cons] at hlt ⊢
              omega
      · next hoctal =>
          simp only [isOctalDigit, Bool.and_eq_true, decide_eq_true_eq] at hoctal
          rw [Nat.ofDigitChars_nil]
          omega

/-! ### Reading decimal numerals -/

theorem hexDigits_of_digits {cs : List Char} (h : ∀ c ∈ cs, c.isDigit = true) :
    hexDigits cs = none := by
  unfold hexDigits
  split
  · next x rest =>
      have hx := h x (by simp)
      rw [if_neg]
      rintro ⟨rfl | rfl, -⟩
      · exact absurd hx (by decide)
      · exact absurd hx (by decide)
  · rfl

/-- What a decimal numeral is read as: a number that is not greater, and the same one unless
there is a zero before other digits. -/
theorem magnitude_of_digits {cs : List Char} (hne : cs ≠ [])
    (hcs : ∀ c ∈ cs, c.isDigit = true) :
    ∃ m, magnitude cs = some m ∧ m ≤ Nat.ofDigitChars 10 cs 0 ∧
      (m = Nat.ofDigitChars 10 cs 0 ↔
        cs.head? ≠ some '0' ∨ Nat.ofDigitChars 10 cs 0 < 8) := by
  rw [magnitude, hexDigits_of_digits hcs]
  simp only
  split
  · next hzero =>
      refine ⟨_, rfl, octal_add_le cs 0 (le_refl 0), ?_⟩
      rw [octal_eq_iff hcs]
      simp [hzero]
  · next hzero =>
      have hall : cs.takeWhile Char.isDigit = cs := List.takeWhile_eq_self_iff.mpr hcs
      rw [hall, if_neg hne]
      exact ⟨_, rfl, le_refl _, by simp [hzero]⟩

theorem stollDetected_of_decimal {s : String} {n : ℤ} (h : decimal s = some n) :
    ∃ negative m, stollDetected s = signed negative m ∧ m ≤ n.natAbs ∧
      (m = n.natAbs ↔ ¬ LeadingZero s ∨ n.natAbs < 8) ∧ n = withSign negative n.natAbs := by
  obtain ⟨hne, hdigits, rfl⟩ := decimal_digits h
  obtain ⟨m, hm, hle, heq⟩ := magnitude_of_digits hne hdigits
  refine ⟨(splitSign s.toList).1, m, ?_, ?_, ?_, ?_⟩
  · rw [stollDetected, dropWhile_isSpace hne hdigits]
    simp only [hm]
  · rwa [natAbs_withSign]
  · rwa [natAbs_withSign, LeadingZero]
  · rw [natAbs_withSign]

end Osquery.Foundation.DetectedBase
