import Osquery.Foundation.DecimalText

/-!
# Conversions of text to the integer types

`tryTo` picks a conversion of the standard library by the integer type it converts to, and turns
the exceptions of the conversion into errors.

## Implementation notes

Longs have 64 bits. The library has no conversion to `unsigned int`: the code calls `std::stoul`
and returns its result as an `unsigned int`, which keeps the low 32 bits. The texts of the
library's own exceptions are a parameter.
-/

namespace Osquery.Core.IntegerConversion

open Foundation.Numeral Foundation.DecimalText

/-- The integer types that a text is converted to. -/
inductive IntType
  | int
  | longInt
  | longLongInt
  | unsignedInt
  | unsignedLongInt
  | unsignedLongLongInt
  deriving DecidableEq, Repr

namespace IntType

def signed : IntType → Bool
  | .int | .longInt | .longLongInt => true
  | .unsignedInt | .unsignedLongInt | .unsignedLongLongInt => false

/-- The least value of a type. -/
def lower : IntType → ℤ
  | .int => -2 ^ 31
  | .longInt | .longLongInt => -2 ^ 63
  | .unsignedInt | .unsignedLongInt | .unsignedLongLongInt => 0

/-- What the values of a type are below. -/
def upper : IntType → ℤ
  | .int => 2 ^ 31
  | .longInt | .longLongInt => 2 ^ 63
  | .unsignedInt => 2 ^ 32
  | .unsignedLongInt | .unsignedLongLongInt => 2 ^ 64

/-- The integers a type has values for. -/
def Representable (T : IntType) (n : ℤ) : Prop := T.lower ≤ n ∧ n < T.upper

instance (T : IntType) (n : ℤ) : Decidable (T.Representable n) :=
  inferInstanceAs (Decidable (T.lower ≤ n ∧ n < T.upper))

end IntType

/-- `std::stol`. -/
def stol (s : String) : Except ConversionError ℤ := stoll s

/-- `std::stoul`; a negated numeral wraps around. -/
def stoul (s : String) : Except ConversionError UInt64 := stoull s

/-- The overloads of `throwingStringToInt`, in base ten. -/
def throwingStringToInt : IntType → String → Except ConversionError ℤ
  | .int, s => stoi s
  | .longInt, s => stol s
  | .longLongInt, s => stoll s
  | .unsignedInt, s => (stoul s).map fun n => (n.toUInt32.toNat : ℤ)
  | .unsignedLongInt, s => (stoul s).map fun n => (n.toNat : ℤ)
  | .unsignedLongLongInt, s => (stoull s).map fun n => (n.toNat : ℤ)

/-- The kinds of errors that `tryTo` returns. -/
inductive ErrorCode
  | InvalidArgument
  | OutOfRange
  | Unknown
  deriving DecidableEq, Repr

structure Error where
  code : ErrorCode
  message : String
  deriving DecidableEq, Repr

/-- `tryTo`, with the text that the library gives its exceptions. -/
def tryTo (what : IntType → ConversionError → String) (T : IntType) (s : String) :
    Except Error ℤ :=
  match throwingStringToInt T s with
  | .ok value => .ok value
  | .error .invalidArgument =>
      .error ⟨.InvalidArgument,
        "If no conversion could be performed. " ++ what T .invalidArgument⟩
  | .error .outOfRange =>
      .error ⟨.OutOfRange,
        "Value read is out of the range of representable values by an int. " ++
          what T .outOfRange⟩

/-- The integer of the numeral that a text starts with, after white space and a sign. -/
def denoted (s : String) : Option ℤ := (leading s).map fun numeral => withSign numeral.1 numeral.2

/-! ### Conversions and the denoted integer -/

theorem leading_of_denoted {s : String} {n : ℤ} (h : denoted s = some n) :
    ∃ negative, leading s = some (negative, n.natAbs) ∧ n = withSign negative n.natAbs := by
  obtain ⟨⟨negative, m⟩, hleading, rfl⟩ := Option.map_eq_some_iff.mp h
  exact ⟨negative, by rw [hleading, natAbs_withSign], by rw [natAbs_withSign]⟩

/-- A signed conversion gives the integers of its range. -/
theorem signed_withSign {negative : Bool} {n : ℤ} (hn : n = withSign negative n.natAbs) {b : ℕ}
    (hb : 0 < b) :
    (if negative then
        if n.natAbs ≤ b then Except.ok (-(n.natAbs : ℤ)) else .error ConversionError.outOfRange
      else if n.natAbs < b then .ok (n.natAbs : ℤ) else .error .outOfRange) =
      if -(b : ℤ) ≤ n ∧ n < b then .ok n else .error .outOfRange := by
  cases negative with
  | true =>
      rw [withSign, if_pos rfl] at hn
      rw [if_pos rfl, ← hn]
      exact if_congr (by omega) rfl rfl
  | false =>
      rw [withSign, if_neg Bool.noConfusion] at hn
      rw [if_neg Bool.noConfusion, ← hn]
      exact if_congr (by omega) rfl rfl

/-- A numeral and its sign as an unsigned integer. -/
theorem unsigned_withSign (negative : Bool) (m : ℕ) :
    (if negative then 0 - UInt64.ofNat m else UInt64.ofNat m) =
      UInt64.ofInt (withSign negative m) := by
  cases negative with
  | true =>
      rw [if_pos rfl, withSign, if_pos rfl, UInt64.ofInt_neg, ofInt_natCast, UInt64.zero_sub]
  | false =>
      rw [if_neg Bool.noConfusion, withSign, if_neg Bool.noConfusion, ofInt_natCast]

theorem stoi_of_denoted {s : String} {n : ℤ} (h : denoted s = some n) :
    stoi s = if -2 ^ 31 ≤ n ∧ n < 2 ^ 31 then .ok n else .error .outOfRange := by
  obtain ⟨negative, hleading, hn⟩ := leading_of_denoted h
  rw [stoi, hleading]
  exact signed_withSign hn (by decide)

theorem stoll_of_denoted {s : String} {n : ℤ} (h : denoted s = some n) :
    stoll s = if -2 ^ 63 ≤ n ∧ n < 2 ^ 63 then .ok n else .error .outOfRange := by
  obtain ⟨negative, hleading, hn⟩ := leading_of_denoted h
  rw [stoll, hleading]
  exact signed_withSign hn (by decide)

theorem stoull_of_denoted {s : String} {n : ℤ} (h : denoted s = some n) :
    stoull s = if n.natAbs < 2 ^ 64 then .ok (UInt64.ofInt n) else .error .outOfRange := by
  obtain ⟨negative, hleading, hn⟩ := leading_of_denoted h
  rw [stoull, hleading]
  simp only
  rw [unsigned_withSign, ← hn]

theorem toNat_ofInt (n : ℤ) : ((UInt64.ofInt n).toNat : ℤ) = n % 2 ^ 64 := by
  have hmod : (n % 2 ^ 64).toNat % 2 ^ 64 = (n % 2 ^ 64).toNat := by omega
  rw [UInt64.ofInt, UInt64.toNat_ofNat', hmod]
  omega

theorem toNat_toUInt32_ofInt (n : ℤ) : ((UInt64.ofInt n).toUInt32.toNat : ℤ) = n % 2 ^ 32 := by
  have h := toNat_ofInt n
  rw [UInt64.toNat_toUInt32]
  omega

theorem throwingStringToInt_of_signed {T : IntType} (hT : T.signed = true) {s : String} {n : ℤ}
    (h : denoted s = some n) :
    throwingStringToInt T s =
      if T.Representable n then .ok n else .error .outOfRange := by
  cases T with
  | int => exact stoi_of_denoted h
  | longInt => exact stoll_of_denoted h
  | longLongInt => exact stoll_of_denoted h
  | unsignedInt | unsignedLongInt | unsignedLongLongInt => cases hT

/-- The conversions to unsigned types take every numeral of 64 bits, of either sign. -/
theorem throwingStringToInt_of_unsigned {T : IntType} (hT : T.signed = false) {s : String} {n : ℤ}
    (h : denoted s = some n) :
    throwingStringToInt T s =
      if n.natAbs < 2 ^ 64 then .ok (n % T.upper) else .error .outOfRange := by
  cases T with
  | int | longInt | longLongInt => cases hT
  | unsignedInt =>
      rw [throwingStringToInt, stoul, stoull_of_denoted h, apply_ite (Except.map _)]
      exact if_congr Iff.rfl (congrArg Except.ok (toNat_toUInt32_ofInt n)) rfl
  | unsignedLongInt =>
      rw [throwingStringToInt, stoul, stoull_of_denoted h, apply_ite (Except.map _)]
      exact if_congr Iff.rfl (congrArg Except.ok (toNat_ofInt n)) rfl
  | unsignedLongLongInt =>
      rw [throwingStringToInt, stoull_of_denoted h, apply_ite (Except.map _)]
      exact if_congr Iff.rfl (congrArg Except.ok (toNat_ofInt n)) rfl

/-- Without a numeral every conversion fails. -/
theorem throwingStringToInt_of_not_denoted {T : IntType} {s : String} (h : denoted s = none) :
    throwingStringToInt T s = .error .invalidArgument := by
  have hleading : leading s = none := Option.map_eq_none_iff.mp h
  cases T <;> simp [throwingStringToInt, stoi, stol, stoll, stoul, stoull, hleading, Except.map]

/-! ### Exactness -/

/-- A value is the denoted integer, and an integer without a value in the type is an error. -/
def Exact (what : IntType → ConversionError → String) (T : IntType) (s : String) : Prop :=
  (∀ v, tryTo what T s = .ok v → denoted s = some v) ∧
    ∀ n, denoted s = some n → ¬T.Representable n →
      ∃ e, tryTo what T s = .error e ∧ e.code = .OutOfRange

/-- The numeral is in the range of the type, or beyond every 64-bit integer. -/
def InReach (T : IntType) (s : String) : Prop :=
  ∀ n, denoted s = some n → T.Representable n ∨ 2 ^ 64 ≤ n.natAbs

variable {what : IntType → ConversionError → String}

theorem tryTo_of_ok {T : IntType} {s : String} {v : ℤ} (h : throwingStringToInt T s = .ok v) :
    tryTo what T s = .ok v := by
  rw [tryTo, h]

theorem tryTo_of_outOfRange {T : IntType} {s : String}
    (h : throwingStringToInt T s = .error .outOfRange) :
    ∃ e, tryTo what T s = .error e ∧ e.code = .OutOfRange := by
  rw [tryTo, h]
  exact ⟨_, rfl, rfl⟩

theorem throwingStringToInt_of_tryTo {T : IntType} {s : String} {v : ℤ}
    (h : tryTo what T s = .ok v) : throwingStringToInt T s = .ok v := by
  rw [tryTo] at h
  split at h
  · next heq => rw [heq, Except.ok.inj h]
  · cases h
  · cases h

/-- What a conversion gives, for the two conditions of exactness. -/
theorem exact_of_denoted {T : IntType} {s : String} {n : ℤ} (h : denoted s = some n) :
    Exact what T s ↔
      (∀ v, throwingStringToInt T s = .ok v → n = v) ∧
        (¬T.Representable n → throwingStringToInt T s = .error .outOfRange) := by
  constructor
  · rintro ⟨hvalue, hrange⟩
    refine ⟨fun v hv => ?_, fun hn => ?_⟩
    · exact Option.some.inj (h.symm.trans (hvalue v (tryTo_of_ok hv)))
    · obtain ⟨e, he, hcode⟩ := hrange n h hn
      rw [tryTo] at he
      split at he
      · cases he
      · obtain rfl := Except.error.inj he
        cases hcode
      · next heq => exact heq
  · rintro ⟨hvalue, hrange⟩
    refine ⟨fun v hv => ?_, fun m hm hn => ?_⟩
    · rw [h, hvalue v (throwingStringToInt_of_tryTo hv)]
    · obtain rfl := Option.some.inj (h.symm.trans hm)
      exact tryTo_of_outOfRange (hrange hn)

theorem exact_of_signed {T : IntType} (hT : T.signed = true) {s : String} {n : ℤ}
    (h : denoted s = some n) : Exact what T s := by
  rw [exact_of_denoted h, throwingStringToInt_of_signed hT h]
  split
  · next hrep => exact ⟨fun v hv => Except.ok.inj hv, fun hn => absurd hrep hn⟩
  · exact ⟨fun v hv => (nomatch hv), fun _ => rfl⟩

/-- A representable integer is its own remainder. -/
theorem emod_upper {T : IntType} (hT : T.signed = false) {n : ℤ} (h : T.Representable n) :
    n % T.upper = n := by
  refine Int.emod_eq_of_lt ?_ h.2
  have hlower : T.lower = 0 := by cases T <;> first | rfl | cases hT
  exact hlower ▸ h.1

theorem exact_of_unsigned {T : IntType} (hT : T.signed = false) {s : String} {n : ℤ}
    (h : denoted s = some n) : Exact what T s ↔ T.Representable n ∨ 2 ^ 64 ≤ n.natAbs := by
  rw [exact_of_denoted h, throwingStringToInt_of_unsigned hT h]
  by_cases hsmall : n.natAbs < 2 ^ 64
  · rw [if_pos hsmall, or_iff_left (Nat.not_le.mpr hsmall)]
    constructor
    · rintro ⟨-, hrange⟩
      by_contra hn
      exact nomatch hrange hn
    · intro hrep
      refine ⟨fun v hv => ?_, fun hn => absurd hrep hn⟩
      rw [← Except.ok.inj hv, emod_upper hT hrep]
  · rw [if_neg hsmall]
    exact iff_of_true ⟨fun v hv => (nomatch hv), fun _ => rfl⟩ (Or.inr (Nat.not_lt.mp hsmall))

theorem exact_of_not_denoted {T : IntType} {s : String} (h : denoted s = none) :
    Exact what T s := by
  refine ⟨fun v hv => ?_, fun n hn => ?_⟩
  · have hthrow := throwingStringToInt_of_tryTo hv
    rw [throwingStringToInt_of_not_denoted h] at hthrow
    cases hthrow
  · rw [h] at hn
    cases hn

/-- A conversion is exact for the numerals that are in reach of the type, and every numeral is in
reach of the signed types. -/
theorem exact_iff_inReach (what : IntType → ConversionError → String) (T : IntType)
    (s : String) :
    Exact what T s ↔ T.signed = true ∨ InReach T s := by
  cases hdenoted : denoted s with
  | none =>
      refine iff_of_true (exact_of_not_denoted hdenoted) (Or.inr fun n hn => ?_)
      rw [hdenoted] at hn
      cases hn
  | some n =>
      have hreach : InReach T s ↔ T.Representable n ∨ 2 ^ 64 ≤ n.natAbs := by
        simp [InReach, hdenoted]
      rw [hreach]
      cases hT : T.signed with
      | true => exact iff_of_true (exact_of_signed hT hdenoted) (Or.inl rfl)
      | false => rw [exact_of_unsigned hT hdenoted, or_iff_right Bool.false_ne_true]

/-- One more than the largest `unsigned int` comes out as zero. -/
theorem unsignedInt_wraps_around :
    tryTo (fun _ _ => "") .unsignedInt "4294967296" = .ok 0 ∧
      denoted "4294967296" = some 4294967296 ∧
      ¬Exact (fun _ _ => "") .unsignedInt "4294967296" := by
  have hvalue : tryTo (fun _ _ => "") .unsignedInt "4294967296" = .ok 0 := by decide
  have hdenoted : denoted "4294967296" = some 4294967296 := by decide
  refine ⟨hvalue, hdenoted, fun h => ?_⟩
  have hzero := h.1 0 hvalue
  rw [hdenoted] at hzero
  exact absurd (Option.some.inj hzero) (by decide)

end Osquery.Core.IntegerConversion
