import Osquery.Foundation.Separated

/-!
# Conversions of text

Tokenizing, the conversions that return an error instead of throwing, and the
strict conversion of `boost::lexical_cast`, which accepts a whole numeral and
nothing else.
-/

namespace Osquery.Core.Conversions

open Foundation.Numeral Foundation.Separated

/-- Tokens at any of the delimiters, without the empty ones, each trimmed. -/
def split (s delim : String) : List String :=
  ((splitAnyOf s delim).filter fun t => t ≠ "").map trim

/-- The tokens, of which those beyond a number of occurrences are joined again. -/
def splitOccurences (s delim : String) (occurences : ℕ) : List String :=
  let content := split s delim
  let accumulator := content.drop occurences
  if accumulator.length > 0 then content.take occurences ++ [join accumulator delim]
  else content.take occurences

/-- `tryTo<unsigned long>` with a default, on a platform with 64-bit longs. -/
def tryToUnsigned (s : String) (otherwise : UInt64) : UInt64 :=
  match stoull s with
  | .ok n => n
  | .error _ => otherwise

/-- `tryTo<long long>` with zero as the default, cast to an unsigned integer. -/
def tryToSigned (s : String) : UInt64 :=
  match stoll s with
  | .ok z => UInt64.ofInt z
  | .error _ => 0

/-- `boost::lexical_cast<size_t>`; a negated numeral wraps around. -/
def lexicalCast (s : String) : Option UInt64 :=
  let signed := splitSign s.toList
  if signed.2 = [] ∨ signed.2.any (fun c => !c.isDigit) then none
  else
    let m := Nat.ofDigitChars 10 signed.2 0
    if m < 2 ^ 64 then some (if signed.1 then 0 - UInt64.ofNat m else UInt64.ofNat m) else none

@[simp] theorem lexicalCast_toText (n : UInt64) : lexicalCast (toText n.toNat) = some n := by
  have hn : n.toNat < 2 ^ 64 := n.toNat_lt
  have hdigits : ∀ c ∈ (toText n.toNat).toList, c.isDigit = true :=
    fun c hc => isDigit_of_mem_toText hc
  obtain ⟨c, rest, hc⟩ := List.exists_cons_of_ne_nil (toText_ne_nil n.toNat)
  have hsign : splitSign (toText n.toNat).toList = (false, (toText n.toNat).toList) := by
    rw [hc]
    exact splitSign_of_isDigit (hdigits c (hc ▸ List.mem_cons_self))
  have hany : (toText n.toNat).toList.any (fun c => !c.isDigit) = false := by
    rw [List.any_eq_false]
    intro d hd
    simp [hdigits d hd]
  rw [lexicalCast, hsign]
  simp only [toText_ne_nil, hany, Bool.false_eq_true, or_self, if_false]
  rw [toText_toList, Nat.ofDigitChars_ten_toDigits, if_pos hn, UInt64.ofNat_toNat]

theorem split_empty (sep : String) : split "" sep = [] := by
  have h : splitAnyOf "" sep = [""] := by simp [splitAnyOf]
  rw [split, h]
  rfl

/-- The tokens of two texts with a separator between them. -/
theorem split_append {x y sep : String} {c : Char} (hsep : sep.toList = [c]) :
    split (x ++ sep ++ y) sep = split x sep ++ split y sep := by
  rw [split, splitAnyOf_append hsep, List.filter_append, List.map_append]
  rfl

/-- A trimmed text without separators is one token. -/
theorem split_eq_singleton {x sep : String} (hc : ∀ c ∈ sep.toList, c ∉ x.toList) (hne : x ≠ "")
    (ht : trim x = x) : split x sep = [x] := by
  rw [split, splitAnyOf_eq_singleton hc, List.filter_cons_of_pos (by simpa using hne),
    List.filter_nil, List.map_cons, List.map_nil, ht]

theorem split_toText {sep : String} (hsep : ∀ c ∈ sep.toList, c.isDigit = false) (n : ℕ) :
    split (toText n) sep = [toText n] := by
  have hdigit : ∀ c ∈ (toText n).toList, c.isDigit = true := fun c hc => isDigit_of_mem_toText hc
  apply split_eq_singleton
  · intro c hc hmem
    exact absurd ((hsep c hc).symm.trans (hdigit c hmem)) (by decide)
  · exact toText_ne_empty n
  · exact trim_of_no_space fun c hc => isDigit_not_space (hdigit c hc)

/-- Splitting a joined list of trimmed tokens without separators. -/
theorem split_join_of_trim {xs : List String} {sep : String} {c : Char} (hsep : sep.toList = [c])
    (hc : ∀ x ∈ xs, c ∉ x.toList) (hne : ∀ x ∈ xs, x ≠ "") (ht : ∀ x ∈ xs, trim x = x) :
    split (join xs sep) sep = xs := by
  by_cases hxs : xs = []
  · subst hxs
    rw [join_nil, split_empty]
  · rw [split, splitAnyOf_join hsep hxs hc, List.filter_eq_self.mpr]
    · rw [List.map_congr_left ht, List.map_id']
    · intro x hx
      simpa using hne x hx

/-- Splitting a joined list of tokens without separators and white space. -/
theorem split_join {xs : List String} {sep : String} {c : Char} (hsep : sep.toList = [c])
    (hc : ∀ x ∈ xs, c ∉ x.toList) (hne : ∀ x ∈ xs, x ≠ "")
    (hs : ∀ x ∈ xs, ∀ d ∈ x.toList, isSpace d = false) : split (join xs sep) sep = xs :=
  split_join_of_trim hsep hc hne fun x hx => trim_of_no_space (hs x hx)

theorem tryToSigned_of_leading {s : String} {n : ℕ} (h : leading s = some (false, n)) :
    tryToSigned s = if n < 2 ^ 63 then UInt64.ofNat n else 0 := by
  unfold tryToSigned stoll
  simp only [h, Bool.false_eq_true, if_false]
  split_ifs with hn
  · exact ofInt_natCast n
  · rfl

end Osquery.Core.Conversions
