import Mathlib.Algebra.Group.Int.Defs
import Mathlib.Data.Int.Cast.Basic
import Mathlib.Data.String.Basic
import Mathlib.Algebra.Ring.Nat

/-!
# Decimal numerals in text

The integer conversions of the C++ standard library read the numeral a text
starts with, after white space and an optional sign, and ignore what follows.
This module gives that reading, the two conversions to 64-bit integers, and
the numerals written by `std::to_string` and by zero padding.

A text is a `String` whose characters stand for the bytes of a `std::string`.
-/

namespace Osquery.Foundation.Numeral

/-- The characters `isspace` accepts in the C locale. -/
def isSpace (c : Char) : Bool := c == ' ' || (9 ≤ c.toNat && c.toNat ≤ 13)

/-- An optional sign and the rest; the flag is true after a minus sign. -/
def splitSign : List Char → Bool × List Char
  | '-' :: rest => (true, rest)
  | '+' :: rest => (false, rest)
  | rest => (false, rest)

/-- The sign and the magnitude of the numeral a text starts with. -/
def leading (s : String) : Option (Bool × ℕ) :=
  let signed := splitSign (s.toList.dropWhile isSpace)
  let digits := signed.2.takeWhile Char.isDigit
  if digits = [] then none else some (signed.1, Nat.ofDigitChars 10 digits 0)

/-- Why a conversion fails. -/
inductive ConversionError
  | invalidArgument
  | outOfRange
  deriving DecidableEq, Repr

/-- `std::stoll`: the numeral as a signed 64-bit integer. -/
def stoll (s : String) : Except ConversionError ℤ :=
  match leading s with
  | none => .error .invalidArgument
  | some (negative, m) =>
      if negative then
        if m ≤ 2 ^ 63 then .ok (-(m : ℤ)) else .error .outOfRange
      else if m < 2 ^ 63 then .ok m else .error .outOfRange

/-- `std::stoi`: the numeral as a signed 32-bit integer. -/
def stoi (s : String) : Except ConversionError ℤ :=
  match leading s with
  | none => .error .invalidArgument
  | some (negative, m) =>
      if negative then
        if m ≤ 2 ^ 31 then .ok (-(m : ℤ)) else .error .outOfRange
      else if m < 2 ^ 31 then .ok m else .error .outOfRange

/-- `std::stoull`: the numeral as an unsigned 64-bit integer; a negated
numeral wraps around. -/
def stoull (s : String) : Except ConversionError UInt64 :=
  match leading s with
  | none => .error .invalidArgument
  | some (negative, m) =>
      if m < 2 ^ 64 then
        .ok (if negative then 0 - UInt64.ofNat m else UInt64.ofNat m)
      else .error .outOfRange

/-- `std::to_string` of an unsigned integer. -/
def toText (n : ℕ) : String := Nat.repr n

/-- The numeral padded with zeros to a least width. -/
def padded (width n : ℕ) : String :=
  String.ofList (List.replicate (width - (toText n).length) '0') ++ toText n

theorem isDigit_iff_toNat {c : Char} : c.isDigit = true ↔ 48 ≤ c.toNat ∧ c.toNat ≤ 57 := by
  simp only [Char.isDigit, Bool.and_eq_true, decide_eq_true_eq, UInt32.le_iff_toNat_le, ge_iff_le]
  rfl

theorem isDigit_not_space {c : Char} (h : c.isDigit = true) : isSpace c = false := by
  have hdigit : 48 ≤ c.val.toNat := (isDigit_iff_toNat.mp h).1
  simp only [isSpace, Char.toNat, Bool.or_eq_false_iff, beq_eq_false_iff_ne, ne_eq,
    Bool.and_eq_false_iff, decide_eq_false_iff_not]
  refine ⟨?_, Or.inr ?_⟩
  · rintro rfl
    simp at h
  · omega

theorem splitSign_of_isDigit {c : Char} {rest : List Char} (h : c.isDigit = true) :
    splitSign (c :: rest) = (false, c :: rest) := by
  unfold splitSign
  split
  · rename_i heq
    cases heq
    simp [Char.isDigit] at h
  · rename_i heq
    cases heq
    simp [Char.isDigit] at h
  · rfl

/-- A text of digits followed by something that is no digit reads as those digits. -/
theorem leading_of_digits {s : String} {ds rest : List Char} (hs : s.toList = ds ++ rest)
    (hne : ds ≠ []) (hd : ∀ c ∈ ds, c.isDigit = true)
    (hr : ∀ c, rest.head? = some c → c.isDigit = false) :
    leading s = some (false, Nat.ofDigitChars 10 ds 0) := by
  obtain ⟨d, ds', rfl⟩ := List.exists_cons_of_ne_nil hne
  have hd0 : d.isDigit = true := hd d (by simp)
  have htake : (d :: ds' ++ rest).takeWhile Char.isDigit = d :: ds' := by
    rw [List.takeWhile_append_of_pos hd]
    cases rest with
    | nil => simp
    | cons c rest' => simp [hr c rfl]
  have hdrop : (d :: ds' ++ rest).dropWhile isSpace = d :: ds' ++ rest := by
    simp [isDigit_not_space hd0]
  have hsign : splitSign (d :: ds' ++ rest) = (false, d :: ds' ++ rest) :=
    splitSign_of_isDigit hd0
  simp only [leading, hs, hdrop, hsign, htake]
  simp

theorem toText_toList (n : ℕ) : (toText n).toList = Nat.toDigits 10 n := Nat.toList_repr

theorem isDigit_of_mem_toText {n : ℕ} {c : Char} (h : c ∈ (toText n).toList) :
    c.isDigit = true := by
  rw [toText_toList] at h
  exact Nat.isDigit_of_mem_toDigits (by decide) (by decide) h

theorem toText_ne_nil (n : ℕ) : (toText n).toList ≠ [] := by
  rw [toText_toList]
  exact Nat.toDigits_ne_nil

@[simp] theorem toText_ne_empty (n : ℕ) : toText n ≠ "" := Nat.repr_ne_empty

theorem padded_toList (width n : ℕ) :
    (padded width n).toList =
      List.replicate (width - (toText n).length) '0' ++ Nat.toDigits 10 n := by
  simp [padded, toText_toList]

theorem isDigit_of_mem_padded {width n : ℕ} {c : Char} (h : c ∈ (padded width n).toList) :
    c.isDigit = true := by
  rw [padded_toList, List.mem_append] at h
  rcases h with h | h
  · rw [List.eq_of_mem_replicate h]
    rfl
  · exact Nat.isDigit_of_mem_toDigits (by decide) (by decide) h

theorem padded_ne_nil (width n : ℕ) : (padded width n).toList ≠ [] := by
  rw [padded_toList]
  simp [Nat.toDigits_ne_nil]

theorem ofDigitChars_padded (width n : ℕ) :
    Nat.ofDigitChars 10 (padded width n).toList 0 = n := by
  rw [padded_toList, Nat.ofDigitChars_append, Nat.ofDigitChars_replicate_zero, Nat.mul_zero,
    Nat.ofDigitChars_ten_toDigits]

@[simp] theorem leading_padded (width n : ℕ) : leading (padded width n) = some (false, n) := by
  have h := leading_of_digits (List.append_nil _).symm (padded_ne_nil width n)
    (fun _ hc => isDigit_of_mem_padded hc) (by simp)
  rw [h, ofDigitChars_padded]

@[simp] theorem leading_toText (n : ℕ) : leading (toText n) = some (false, n) := by
  have h := leading_of_digits (List.append_nil _).symm (toText_ne_nil n)
    (fun _ hc => isDigit_of_mem_toText hc) (by simp)
  rw [h, toText_toList, Nat.ofDigitChars_ten_toDigits]

@[simp] theorem toText_inj {m n : ℕ} : toText m = toText n ↔ m = n := by
  constructor
  · intro h
    simpa using congrArg leading h
  · rintro rfl
    rfl

theorem padded_inj {width m n : ℕ} : padded width m = padded width n ↔ m = n := by
  constructor
  · intro h
    simpa using congrArg leading h
  · rintro rfl
    rfl

@[simp] theorem stoull_toText (n : UInt64) : stoull (toText n.toNat) = .ok n := by
  have h : n.toNat < 2 ^ 64 := n.toNat_lt
  simp only [stoull, leading_toText, h, if_true]
  simp

theorem stoll_toText (n : ℕ) :
    stoll (toText n) = if n < 2 ^ 63 then .ok (n : ℤ) else .error .outOfRange := by
  simp only [stoll, leading_toText, Bool.false_eq_true, if_false]

theorem ofInt_natCast (n : ℕ) : UInt64.ofInt (n : ℤ) = UInt64.ofNat n := by
  have hmod : ((n : ℤ) % 2 ^ 64).toNat = n % 2 ^ 64 := by omega
  rw [UInt64.ofInt, hmod]
  exact UInt64.ofNat_mod_size

theorem ofInt_toNat (n : UInt64) : UInt64.ofInt (n.toNat : ℤ) = n := by
  rw [ofInt_natCast, UInt64.ofNat_toNat]

/-- What is read as a signed number is below its bound. -/
theorem stoll_lt {s : String} {z : ℤ} (h : stoll s = .ok z) : z < 2 ^ 63 := by
  rw [stoll] at h
  split at h
  · cases h
  · split at h
    · split at h
      · obtain rfl := Except.ok.inj h
        omega
      · cases h
    · split at h
      · obtain rfl := Except.ok.inj h
        omega
      · cases h

/-- A text that starts with something other than white space, a sign or a
digit is no numeral. -/
theorem leading_of_head {s : String} {c : Char} {rest : List Char} (hs : s.toList = c :: rest)
    (hspace : isSpace c = false) (hminus : c ≠ '-') (hplus : c ≠ '+')
    (hd : c.isDigit = false) : leading s = none := by
  have hsign : splitSign (c :: rest) = (false, c :: rest) := by
    unfold splitSign
    split
    · rename_i heq
      cases heq
      exact absurd rfl hminus
    · rename_i heq
      cases heq
      exact absurd rfl hplus
    · rfl
  simp [leading, hs, hspace, hsign, hd]

end Osquery.Foundation.Numeral

/-!
## The order of padded numerals

Texts are compared character by character. Digits of one length are in the
order of the numbers they stand for, so numerals that are padded to a common
width are.
-/

namespace Osquery.Foundation.Numeral

theorem ofDigitChars_cons_zero (c : Char) (ds : List Char) :
    Nat.ofDigitChars 10 (c :: ds) 0 =
      10 ^ ds.length * (c.toNat - 48) + Nat.ofDigitChars 10 ds 0 := by
  rw [Nat.ofDigitChars_cons, Nat.ofDigitChars_eq_ofDigitChars_zero, Nat.mul_zero, Nat.zero_add]
  rfl

theorem ofDigitChars_lt {ds : List Char} (hd : ∀ c ∈ ds, c.isDigit = true) :
    Nat.ofDigitChars 10 ds 0 < 10 ^ ds.length := by
  induction ds with
  | nil => simp
  | cons c rest ih =>
      have hc := isDigit_iff_toNat.mp (hd c List.mem_cons_self)
      have hrest := ih fun d hd' => hd d (List.mem_cons_of_mem _ hd')
      have hle : 10 ^ rest.length * (c.toNat - 48) ≤ 10 ^ rest.length * 9 :=
        Nat.mul_le_mul_left _ (by omega)
      rw [ofDigitChars_cons_zero, List.length_cons, pow_succ]
      omega

/-- Digits of one length are in the order of their values. -/
theorem lt_iff_ofDigitChars_lt {as bs : List Char} (hlen : as.length = bs.length)
    (ha : ∀ c ∈ as, c.isDigit = true) (hb : ∀ c ∈ bs, c.isDigit = true) :
    as < bs ↔ Nat.ofDigitChars 10 as 0 < Nat.ofDigitChars 10 bs 0 := by
  induction as generalizing bs with
  | nil =>
      obtain rfl := List.length_eq_zero_iff.mp hlen.symm
      simp
  | cons a as ih =>
      obtain ⟨b, bs, rfl⟩ := List.exists_cons_of_length_eq_add_one hlen.symm
      have hlen' : as.length = bs.length := Nat.succ.inj hlen
      have ha' := fun c hc => ha c (List.mem_cons_of_mem a hc)
      have hb' := fun c hc => hb c (List.mem_cons_of_mem b hc)
      have hav := ofDigitChars_lt ha'
      have hbv := ofDigitChars_lt hb'
      have had := isDigit_iff_toNat.mp (ha a List.mem_cons_self)
      have hbd := isDigit_iff_toNat.mp (hb b List.mem_cons_self)
      rw [List.cons_lt_cons_iff, ih hlen' ha' hb', ofDigitChars_cons_zero, ofDigitChars_cons_zero]
      rw [hlen'] at hav ⊢
      have hlt : a < b ↔ a.toNat < b.toNat := Iff.rfl
      have heq : a = b ↔ a.toNat = b.toNat := Char.toNat_inj.symm
      rw [hlt, heq]
      rcases Nat.lt_trichotomy a.toNat b.toNat with h | h | h
      · have hstep : 10 ^ bs.length * (a.toNat - 48 + 1) ≤ 10 ^ bs.length * (b.toNat - 48) :=
          Nat.mul_le_mul_left _ (by omega)
        rw [Nat.mul_add, Nat.mul_one] at hstep
        exact iff_of_true (Or.inl h) (by omega)
      · rw [h]
        simp
      · have hstep : 10 ^ bs.length * (b.toNat - 48 + 1) ≤ 10 ^ bs.length * (a.toNat - 48) :=
          Nat.mul_le_mul_left _ (by omega)
        rw [Nat.mul_add, Nat.mul_one] at hstep
        exact iff_of_false (by omega) (by omega)

/-- Numerals with the same number of digits are in the order of their values. -/
theorem toText_lt_toText {m n : ℕ} (hlen : (toText m).toList.length = (toText n).toList.length) :
    (toText m).toList < (toText n).toList ↔ m < n := by
  rw [lt_iff_ofDigitChars_lt hlen (fun _ hc => isDigit_of_mem_toText hc)
    fun _ hc => isDigit_of_mem_toText hc]
  rw [toText_toList, toText_toList, Nat.ofDigitChars_ten_toDigits, Nat.ofDigitChars_ten_toDigits]

/-- What follows does not matter for beginnings of one length that differ. -/
theorem append_lt_append_of_lt {as bs : List Char} (hlen : as.length = bs.length) (h : as < bs)
    (xs ys : List Char) : as ++ xs < bs ++ ys := by
  induction as generalizing bs with
  | nil =>
      obtain rfl := List.length_eq_zero_iff.mp hlen.symm
      exact absurd h (List.not_lt_nil _)
  | cons a as ih =>
      obtain ⟨b, bs, rfl⟩ := List.exists_cons_of_length_eq_add_one hlen.symm
      rw [List.cons_append, List.cons_append, List.cons_lt_cons_iff]
      rw [List.cons_lt_cons_iff] at h
      exact h.imp id fun h => ⟨h.1, ih (Nat.succ.inj hlen) h.2⟩

theorem length_padded {width n : ℕ} (hw : 0 < width) (h : n < 10 ^ width) :
    (padded width n).toList.length = width := by
  have hle : (toText n).length ≤ width := (Nat.length_repr_le_iff hw).mpr h
  rw [padded_toList, List.length_append, List.length_replicate, ← toText_toList,
    String.length_toList]
  omega

/-- Numerals that fit the width are in the order of their values. -/
theorem padded_lt_padded {width m n : ℕ} (hw : 0 < width) (hm : m < 10 ^ width)
    (hn : n < 10 ^ width) : padded width m < padded width n ↔ m < n := by
  rw [String.lt_iff_toList_lt, lt_iff_ofDigitChars_lt, ofDigitChars_padded, ofDigitChars_padded]
  · rw [length_padded hw hm, length_padded hw hn]
  · exact fun _ hc => isDigit_of_mem_padded hc
  · exact fun _ hc => isDigit_of_mem_padded hc

/-- A common beginning does not matter for the order. -/
theorem append_lt_append_iff {x a b : String} : x ++ a < x ++ b ↔ a < b := by
  rw [String.lt_iff_toList_lt, String.lt_iff_toList_lt, String.toList_append, String.toList_append]
  induction x.toList with
  | nil => exact Iff.rfl
  | cons c rest ih =>
      rw [List.cons_append, List.cons_append, List.cons_lt_cons_iff, ih]
      simp

theorem append_le_append_iff {x a b : String} : x ++ a ≤ x ++ b ↔ a ≤ b := by
  rw [← not_lt, ← not_lt, append_lt_append_iff]

end Osquery.Foundation.Numeral
