import Osquery.Foundation.BigEndian
import Osquery.Foundation.DetectedBase

/-!
# Hexadecimal text

The upper-case hexadecimal text of bytes, what it takes to decode it, and the conversions
of the C++ standard library with the base 16, which accept a prefix `0x`.
-/

namespace Osquery.Foundation.Hexadecimal

open Numeral DecimalText JsonTokens DetectedBase

def hexDigit (n : ℕ) : Char := Char.ofNat (if n < 10 then 48 + n else 55 + n)

def hexByte (b : UInt8) : List Char := [hexDigit (b.toNat / 16), hexDigit (b.toNat % 16)]

def hexText (bytes : List UInt8) : List Char := bytes.flatMap hexByte

/-- The text whose characters stand for some bytes. -/
def bytesText (bytes : List UInt8) : String :=
  String.ofList (bytes.map fun b => Char.ofNat b.toNat)

theorem toNat_ofNat_of_lt : ∀ n < 256, (Char.ofNat n).toNat = n := by
  decide +kernel

theorem toList_bytesText (bytes : List UInt8) :
    (bytesText bytes).toList = bytes.map fun b => Char.ofNat b.toNat := String.toList_ofList

@[simp] theorem bytesText_eq_empty_iff {bytes : List UInt8} :
    bytesText bytes = "" ↔ bytes = [] := by
  rw [← String.toList_eq_nil_iff, toList_bytesText, List.map_eq_nil_iff]

@[simp] theorem hexText_nil : hexText [] = [] := rfl

@[simp] theorem hexText_cons (b : UInt8) (bytes : List UInt8) :
    hexText (b :: bytes) =
      hexDigit (b.toNat / 16) :: hexDigit (b.toNat % 16) :: hexText bytes := rfl

@[simp] theorem length_hexText (bytes : List UInt8) :
    (hexText bytes).length = 2 * bytes.length := by
  induction bytes with
  | nil => rfl
  | cons b bytes ih =>
      rw [hexText_cons, List.length_cons, List.length_cons, ih, List.length_cons]
      omega

theorem hexDigitValue_hexDigit : ∀ n < 16, hexDigitValue (hexDigit n) = some n := by
  decide

theorem isHexDigit_hexDigit {n : ℕ} (h : n < 16) : isHexDigit (hexDigit n) = true := by
  rw [isHexDigit, hexDigitValue_hexDigit n h]
  rfl

/-- The digits of a text of bytes are sixteen. -/
theorem exists_of_mem_hexText {bytes : List UInt8} {c : Char} (h : c ∈ hexText bytes) :
    ∃ n < 16, c = hexDigit n := by
  obtain ⟨b, _, hc⟩ := List.mem_flatMap.mp h
  have hb := b.toNat_lt
  simp only [hexByte, List.mem_cons, List.not_mem_nil, or_false] at hc
  obtain rfl | rfl := hc
  · exact ⟨_, by omega, rfl⟩
  · exact ⟨_, by omega, rfl⟩

theorem hexText_drop (bytes : List UInt8) (n : ℕ) :
    (hexText bytes).drop (2 * n) = hexText (bytes.drop n) := by
  induction bytes generalizing n with
  | nil => simp
  | cons b bytes ih =>
      cases n with
      | zero => rfl
      | succ n => exact ih n

theorem hexText_take (bytes : List UInt8) (n : ℕ) :
    (hexText bytes).take (2 * n) = hexText (bytes.take n) := by
  induction bytes generalizing n with
  | nil => simp
  | cons b bytes ih =>
      cases n with
      | zero => rfl
      | succ n =>
          rw [List.take_succ_cons, hexText_cons, hexText_cons, ← ih]
          rfl

/-! ### Decoding -/

/-- What is known of a function that decodes hexadecimal text. -/
structure UnhexLaws (unhex : String → Option String) : Prop where
  decode : ∀ bytes, unhex (String.ofList (hexText bytes)) = some (bytesText bytes)
  odd : ∀ s, s.toList.length % 2 = 1 → unhex s = none

def decodeBytes : List Char → Option (List UInt8)
  | [] => some []
  | [_] => none
  | high :: low :: rest => do
      let high ← hexDigitValue high
      let low ← hexDigitValue low
      let bytes ← decodeBytes rest
      return UInt8.ofNat (16 * high + low) :: bytes

def decodeText (s : String) : Option String := (decodeBytes s.toList).map bytesText

theorem decodeBytes_hexText (bytes : List UInt8) : decodeBytes (hexText bytes) = some bytes := by
  induction bytes with
  | nil => rfl
  | cons b bytes ih =>
      have hb := b.toNat_lt
      rw [hexText_cons, decodeBytes, hexDigitValue_hexDigit _ (by omega),
        hexDigitValue_hexDigit _ (by omega), ih]
      simp only [Option.bind_eq_bind, Option.bind_some, Nat.div_add_mod, UInt8.ofNat_toNat]
      rfl

theorem decodeBytes_odd : ∀ {s : List Char}, s.length % 2 = 1 → decodeBytes s = none
  | [_], _ => rfl
  | high :: low :: rest, h => by
      have hrest : decodeBytes rest = none := decodeBytes_odd (by simp at h; omega)
      rw [decodeBytes, hrest]
      cases hexDigitValue high with
      | none => rfl
      | some m =>
          cases hexDigitValue low with
          | none => rfl
          | some n => rfl

theorem decodeText_laws : UnhexLaws decodeText := by
  constructor
  · intro bytes
    rw [decodeText, String.toList_ofList, decodeBytes_hexText]
    rfl
  · intro s hs
    rw [decodeText, decodeBytes_odd hs]
    rfl

/-! ### Numbers -/

theorem ofHexDigits_hexText (bytes : List UInt8) :
    ofHexDigits (hexText bytes) = BigEndian.value bytes := by
  have hfold : ∀ value, (hexText bytes).foldl
      (fun value c => 16 * value + (hexDigitValue c).getD 0) value =
        bytes.foldl (fun n byte => n * 256 + byte.toNat) value := by
    induction bytes with
    | nil => exact fun _ => rfl
    | cons b bytes ih =>
        intro value
        have hb := b.toNat_lt
        rw [hexText_cons, List.foldl_cons, List.foldl_cons, hexDigitValue_hexDigit _ (by omega),
          hexDigitValue_hexDigit _ (by omega), ih, List.foldl_cons]
        apply congrArg fun start => bytes.foldl (fun n byte => n * 256 + byte.toNat) start
        simp only [Option.getD_some]
        omega
  exact hfold 0

/-- The number that a text without white space and a sign starts with in the base 16. -/
def magnitude16 (cs : List Char) : Option ℕ :=
  match hexDigits cs with
  | some digits => some (ofHexDigits digits)
  | none =>
      let digits := cs.takeWhile isHexDigit
      if digits = [] then none else some (ofHexDigits digits)

/-- `std::stol` with the base 16. -/
def stol16 (s : String) : Except ConversionError ℤ :=
  let text := splitSign (s.toList.dropWhile isSpace)
  match magnitude16 text.2 with
  | none => .error .invalidArgument
  | some m => signed text.1 m

/-- `std::stoull` with the base 16. -/
def stoull16 (s : String) : Except ConversionError UInt64 :=
  let text := splitSign (s.toList.dropWhile isSpace)
  match magnitude16 text.2 with
  | none => .error .invalidArgument
  | some m =>
      if m < 2 ^ 64 then .ok (if text.1 then 0 - UInt64.ofNat m else UInt64.ofNat m)
      else .error .outOfRange

theorem toNat_of_isHexDigit {c : Char} (h : isHexDigit c = true) : 48 ≤ c.toNat := by
  rw [isHexDigit, hexDigitValue] at h
  split at h
  · next hdigit => exact (isDigit_iff_toNat.mp hdigit).1
  · split at h
    · next hupper => exact le_trans (by decide) (Char.le_def.mp hupper.1)
    · split at h
      · next hlower => exact le_trans (by decide) (Char.le_def.mp hlower.1)
      · cases h

theorem isSpace_of_isHexDigit {c : Char} (h : isHexDigit c = true) : isSpace c = false := by
  have hc := toNat_of_isHexDigit h
  have hspace : c ≠ ' ' := by
    rintro rfl
    revert hc
    decide
  rw [isSpace, beq_false_of_ne hspace, Bool.false_or, Bool.and_eq_false_iff]
  right
  exact decide_eq_false (by omega)

theorem splitSign_of_isHexDigit {c : Char} {rest : List Char} (h : isHexDigit c = true) :
    splitSign (c :: rest) = (false, c :: rest) := by
  rw [splitSign]
  · intro _ heq
    cases heq
    revert h
    decide
  · intro _ heq
    cases heq
    revert h
    decide

theorem magnitude16_of_digits {digits : List Char} (hne : digits ≠ [])
    (hdigits : ∀ c ∈ digits, isHexDigit c = true) :
    magnitude16 digits = some (ofHexDigits digits) := by
  have hprefix : hexDigits digits = none := by
    rw [hexDigits.eq_def]
    split
    · next x rest =>
        have hx := hdigits x (by simp)
        rw [if_neg]
        rintro ⟨hx', _⟩
        obtain rfl | rfl := hx'
        · revert hx
          decide
        · revert hx
          decide
    · rfl
  rw [magnitude16, hprefix]
  simp only [List.takeWhile_eq_self_iff.mpr hdigits, if_neg hne]

/-- What the conversions read of a text of digits without a sign. -/
theorem text_of_digits {s : String} (hne : s.toList ≠ [])
    (hdigits : ∀ c ∈ s.toList, isHexDigit c = true) :
    splitSign (s.toList.dropWhile isSpace) = (false, s.toList) := by
  obtain ⟨c, rest, hs⟩ := List.exists_cons_of_ne_nil hne
  have hc : isHexDigit c = true := hdigits c (by rw [hs]; exact List.mem_cons_self)
  rw [hs, List.dropWhile_cons_of_neg (by rw [isSpace_of_isHexDigit hc]; decide)]
  exact splitSign_of_isHexDigit hc

theorem stol16_of_digits {s : String} (hne : s.toList ≠ [])
    (hdigits : ∀ c ∈ s.toList, isHexDigit c = true) (hlt : ofHexDigits s.toList < 2 ^ 63) :
    stol16 s = .ok (ofHexDigits s.toList : ℤ) := by
  have hsigned : signed false (ofHexDigits s.toList) = .ok (ofHexDigits s.toList : ℤ) := by
    have hsign : withSign false (ofHexDigits s.toList) = (ofHexDigits s.toList : ℤ) := rfl
    rw [signed, hsign, if_pos ⟨by omega, by omega⟩]
  rw [stol16, text_of_digits hne hdigits]
  simp only [magnitude16_of_digits hne hdigits, hsigned]

/-- A text of digits is converted unless its number is too large. -/
theorem stoull16_digits {s : String} (hne : s.toList ≠ [])
    (hdigits : ∀ c ∈ s.toList, isHexDigit c = true) :
    stoull16 s =
      if ofHexDigits s.toList < 2 ^ 64 then .ok (UInt64.ofNat (ofHexDigits s.toList))
      else .error .outOfRange := by
  rw [stoull16, text_of_digits hne hdigits]
  simp only [magnitude16_of_digits hne hdigits]
  rfl

/-! ### Numbers of other bases -/

/-- The number whose hexadecimal digits are those of `n` in the base `b`. -/
def reread (b n : ℕ) : ℕ := ofHexDigits (Nat.toDigits b n)

/-- The text of a number in the base 16, with lower-case letters. -/
def hexNumeral (n : ℕ) : String := String.ofList (Nat.toDigits 16 n)

theorem hexDigitValue_digitChar : ∀ d < 16, hexDigitValue d.digitChar = some d := by
  decide

theorem isHexDigit_of_mem_toDigits {b n : ℕ} (hb : 1 < b) (hb' : b ≤ 16) {c : Char}
    (h : c ∈ Nat.toDigits b n) : isHexDigit c = true := by
  have hdigit : ∀ d < b, isHexDigit d.digitChar = true := by
    intro d hd
    rw [isHexDigit, hexDigitValue_digitChar d (by omega)]
    rfl
  induction n using Nat.strong_induction_on with
  | _ n ih =>
      obtain hn | hn := Nat.lt_or_ge n b
      · rw [Nat.toDigits_of_lt_base hn, List.mem_singleton] at h
        rw [h]
        exact hdigit n hn
      · rw [Nat.toDigits_of_base_le hb hn, List.mem_append, List.mem_singleton] at h
        obtain h | rfl := h
        · exact ih (n / b) (Nat.div_lt_self (by omega) hb) h
        · exact hdigit (n % b) (Nat.mod_lt n (by omega))

theorem ofHexDigits_concat (digits : List Char) {d : ℕ} (hd : d < 16) :
    ofHexDigits (digits ++ [d.digitChar]) = 16 * ofHexDigits digits + d := by
  rw [ofHexDigits, List.foldl_append, List.foldl_cons, List.foldl_nil,
    hexDigitValue_digitChar d hd]
  rfl

theorem reread_of_lt {b n : ℕ} (hb : b ≤ 16) (h : n < b) : reread b n = n := by
  have hdigit := ofHexDigits_concat [] (lt_of_lt_of_le h hb)
  rw [reread, Nat.toDigits_of_lt_base h]
  simpa [ofHexDigits] using hdigit

theorem reread_of_le {b n : ℕ} (hb : 1 < b) (hb' : b ≤ 16) (h : b ≤ n) :
    reread b n = 16 * reread b (n / b) + n % b := by
  have hdigit : n % b < 16 := lt_of_lt_of_le (Nat.mod_lt n (by omega)) hb'
  rw [reread, Nat.toDigits_of_base_le hb h, ofHexDigits_concat _ hdigit, reread]

@[simp] theorem reread_sixteen (n : ℕ) : reread 16 n = n := by
  induction n using Nat.strong_induction_on with
  | _ n ih =>
      obtain hn | hn := Nat.lt_or_ge n 16
      · exact reread_of_lt le_rfl hn
      · rw [reread_of_le (by decide) le_rfl hn, ih (n / 16) (by omega)]
        omega

theorem le_reread_ten (n : ℕ) : n ≤ reread 10 n := by
  induction n using Nat.strong_induction_on with
  | _ n ih =>
      obtain hn | hn := Nat.lt_or_ge n 10
      · exact (reread_of_lt (by decide) hn).ge
      · have hdiv := ih (n / 10) (by omega)
        rw [reread_of_le (by decide) (by decide) hn]
        omega

/-- A number with more than one digit is less than what its digits mean in the base 16. -/
theorem lt_reread_ten {n : ℕ} (h : 10 ≤ n) : n < reread 10 n := by
  have hdiv := le_reread_ten (n / 10)
  rw [reread_of_le (by decide) (by decide) h]
  omega

theorem reread_ten_eq_iff {n : ℕ} : reread 10 n = n ↔ n < 10 := by
  constructor
  · intro h
    by_contra hn
    have hlt := lt_reread_ten (not_lt.mp hn)
    omega
  · exact reread_of_lt (by decide)

/-- As many digits are too many in both bases. -/
theorem reread_ten_lt_iff {n : ℕ} (k : ℕ) : reread 10 n < 16 ^ (k + 1) ↔ n < 10 ^ (k + 1) := by
  induction k generalizing n with
  | zero =>
      obtain hn | hn := Nat.lt_or_ge n 10
      · rw [reread_of_lt (by decide) hn]
        omega
      · have hdiv := le_reread_ten (n / 10)
        rw [reread_of_le (by decide) (by decide) hn]
        omega
  | succ k ih =>
      obtain hn | hn := Nat.lt_or_ge n 10
      · have hten : 10 ^ 1 ≤ 10 ^ (k + 1 + 1) := Nat.pow_le_pow_right (by decide) (by omega)
        have hsixteen : 16 ^ 1 ≤ 16 ^ (k + 1 + 1) := Nat.pow_le_pow_right (by decide) (by omega)
        rw [reread_of_lt (by decide) hn]
        omega
      · have hdiv := ih (n := n / 10)
        have hten : 10 ^ (k + 1 + 1) = 10 * 10 ^ (k + 1) := pow_succ' 10 (k + 1)
        have hsixteen : 16 ^ (k + 1 + 1) = 16 * 16 ^ (k + 1) := pow_succ' 16 (k + 1)
        rw [reread_of_le (by decide) (by decide) hn]
        omega

theorem stoull16_toDigits {b n : ℕ} (hb : 1 < b) (hb' : b ≤ 16) :
    stoull16 (String.ofList (Nat.toDigits b n)) =
      if reread b n < 2 ^ 64 then .ok (UInt64.ofNat (reread b n)) else .error .outOfRange := by
  rw [stoull16_digits]
  · rw [String.toList_ofList, reread]
  · rw [String.toList_ofList]
    exact Nat.toDigits_ne_nil
  · rw [String.toList_ofList]
    exact fun c hc => isHexDigit_of_mem_toDigits hb hb' hc

/-- A number that was written in the base 16 is read back. -/
theorem stoull16_hexNumeral (n : UInt64) : stoull16 (hexNumeral n.toNat) = .ok n := by
  rw [hexNumeral, stoull16_toDigits (by decide) le_rfl, reread_sixteen, if_pos n.toNat_lt,
    UInt64.ofNat_toNat]

/-- A number that was written in the base 10 is read as another one, or as none. -/
theorem stoull16_toText (n : ℕ) :
    stoull16 (toText n) =
      if n < 10 ^ 16 then .ok (UInt64.ofNat (reread 10 n)) else .error .outOfRange := by
  have htext : toText n = String.ofList (Nat.toDigits 10 n) := by
    rw [← toText_toList, String.ofList_toList]
  have hlt : reread 10 n < 2 ^ 64 ↔ n < 10 ^ 16 := reread_ten_lt_iff 15
  rw [htext, stoull16_toDigits (by decide) (by decide)]
  simp only [hlt]

end Osquery.Foundation.Hexadecimal
