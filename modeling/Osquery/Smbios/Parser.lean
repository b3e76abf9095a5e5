import Osquery.Foundation.ByteReads
import Mathlib.Algebra.Group.Nat.Defs
import Mathlib.Data.List.DropRight

/-!
# The structures of an SMBIOS table

The parser walks over the structures of a table. A structure is a header, a formatted area whose
length the header has, and a text area that ends with two zero bytes. Numbers are stored with
their lowest byte first, and the strings of the text area are found by their numbers.

## Implementation notes

Addresses are offsets into the memory that is read. A walk has as many rounds as the table has
bytes and one more; no result would stand for a walk that needs more of them. A table that was
not found is one without bytes.
-/

namespace Osquery.Smbios

open Foundation.ByteReads

/-! ### Numbers -/

def dmiToWord (offset : ℕ) : Reads ℕ := do
  let high ← byte (offset + 1)
  let low ← byte offset
  pure (high.toNat * 2 ^ 8 + low.toNat)

def dmiToDWord (offset : ℕ) : Reads ℕ := do
  let high ← dmiToWord (offset + 2)
  let low ← dmiToWord offset
  pure (high * 2 ^ 16 + low)

def dmiToQWord (offset : ℕ) : Reads ℕ := do
  let high ← dmiToDWord (offset + 4)
  let low ← dmiToDWord offset
  pure (high * 2 ^ 32 + low)

/-! ### The walk -/

/-- `sizeof(SMBStructHeader)`: a type, a length and a handle of two bytes. -/
def headerSize : ℕ := 4

/-- What the predicate is called with. -/
structure Call where
  index : ℕ
  address : ℕ
  textAddrs : ℕ
  size : ℕ
  deriving DecidableEq, Repr

/-- The loop that looks for two zero bytes, with enough rounds to reach the end of the table. -/
def skipText (tables_end : ℕ) : ℕ → ℕ → Reads ℕ
  | 0, next_table => pure next_table
  | rounds + 1, next_table =>
      if next_table + headerSize ≤ tables_end then do
        let first ← byte next_table
        if first = 0 then
          let second ← byte (next_table + 1)
          if second = 0 then pure (next_table + 2)
          else skipText tables_end rounds (next_table + 1)
        else skipText tables_end rounds (next_table + 1)
      else pure next_table

/-- The header is the null-padded content after the last structure. -/
def nullPadded (table : ℕ) (length : UInt8) : Reads Bool :=
  if length = 0 then (· == 0) <$> dmiToWord (table + 2) else pure false

/-- The loop over the structures; no result inside means that the rounds were not enough. -/
def walk (tables_end : ℕ) : ℕ → ℕ → ℕ → Reads (Option (List Call))
  | 0, _, _ => pure none
  | rounds + 1, index, table =>
      if table + headerSize ≤ tables_end then do
        let length ← byte (table + 1)
        if table + length.toNat > tables_end then pure (some [])
        else if ← nullPadded table length then pure (some [])
        else do
          let textAddrs := table + length.toNat
          let next_table ← skipText tables_end tables_end textAddrs
          let rest ← walk tables_end rounds (index + 1) next_table
          pure (rest.map (⟨index, table, textAddrs, next_table - table⟩ :: ·))
      else pure (some [])

/-- `SMBIOSParser::tables`: the calls of the predicate. -/
def tables (table_size : ℕ) : Reads (Option (List Call)) :=
  walk table_size (table_size + 1) 0 0

/-! ### Strings -/

/-- The inner loop of `dmiString`, over the rest of a string: where it ends, and the size that was
counted. -/
def skipCharacters (maxlen : ℕ) : ℕ → ℕ → ℕ → Reads (ℕ × ℕ)
  | 0, bp, size => pure (bp, size)
  | rounds + 1, bp, size => do
      let c ← byte bp
      if c ≠ 0 then
        if size + 1 > maxlen - 1 then pure (bp, size + 1)
        else skipCharacters maxlen rounds (bp + 1) (size + 1)
      else pure (bp, size)

/-- The outer loop of `dmiString`, over the strings before the one that is looked for. -/
def skipStrings (maxlen : ℕ) : ℕ → ℕ → ℕ → Reads (ℕ × ℕ)
  | 0, bp, size => pure (bp, size)
  | before + 1, bp, size =>
      if size > maxlen - 1 then pure (bp, size)
      else do
        let skipped ← skipCharacters maxlen maxlen bp size
        skipStrings maxlen before (skipped.1 + 1) (skipped.2 + 1)

/-- `isspace` of a byte. -/
def isSpace (c : UInt8) : Bool := c == 32 || (9 ≤ c && c ≤ 13)

/-- `boost::algorithm::trim_right`. -/
def trimRight (str : List UInt8) : List UInt8 := str.rdropWhile isSpace

def dmiString (data : ℕ) (index : UInt8) (maxlen : ℕ) : Reads (List UInt8) :=
  if index = 0 ∨ maxlen = 0 then pure []
  else do
    let last ← byte (data + maxlen - 1)
    if last ≠ 0 then pure []
    else do
      let found ← skipStrings maxlen (index.toNat - 1) data 0
      if found.2 > maxlen - 1 then pure []
      else trimRight <$> text found.1

/-! ### Reading numbers and headers -/

section Numbers

variable {memory : List UInt8} {n offset : ℕ}

def wordAt (memory : List UInt8) (offset : ℕ) : ℕ :=
  (byteAt memory (offset + 1)).toNat * 2 ^ 8 + (byteAt memory offset).toNat

def dwordAt (memory : List UInt8) (offset : ℕ) : ℕ :=
  wordAt memory (offset + 2) * 2 ^ 16 + wordAt memory offset

def qwordAt (memory : List UInt8) (offset : ℕ) : ℕ :=
  dwordAt memory (offset + 4) * 2 ^ 32 + dwordAt memory offset

theorem extent_dmiToWord (h : offset + 2 ≤ memory.length) :
    Extent memory (dmiToWord offset) (wordAt memory offset) (offset + 2) := by
  have high := @extent_byte memory (offset + 1) (by omega)
  have low := @extent_byte memory offset (by omega)
  refine Extent.of_eq (extent_bind high (extent_bind_pure _ low)) ?_
  omega

theorem extent_dmiToDWord (h : offset + 4 ≤ memory.length) :
    Extent memory (dmiToDWord offset) (dwordAt memory offset) (offset + 4) := by
  have high := @extent_dmiToWord memory (offset + 2) (by omega)
  have low := @extent_dmiToWord memory offset (by omega)
  refine Extent.of_eq (extent_bind high (extent_bind_pure _ low)) ?_
  omega

theorem extent_dmiToQWord (h : offset + 8 ≤ memory.length) :
    Extent memory (dmiToQWord offset) (qwordAt memory offset) (offset + 8) := by
  have high := @extent_dmiToDWord memory (offset + 4) (by omega)
  have low := @extent_dmiToDWord memory offset (by omega)
  refine Extent.of_eq (extent_bind high (extent_bind_pure _ low)) ?_
  omega

theorem within_nullPadded {table : ℕ} (hn : n ≤ memory.length) (h : table + headerSize ≤ n)
    (length : UInt8) :
    Within memory n (nullPadded table length) (length == 0 && wordAt memory (table + 2) == 0) := by
  rw [nullPadded]
  split_ifs with hzero
  · rw [hzero]
    have hword := @extent_dmiToWord memory (table + 2) (by rw [headerSize] at h; omega)
    exact within_map _ (hword.within h)
  · have hfalse : (length == 0 && wordAt memory (table + 2) == 0) = false := by simp [hzero]
    rw [hfalse]
    exact within_pure _

end Numbers

/-! ### The end of a text area -/

/-- How far the loop over a text area goes, by the bytes from its beginning on. -/
def pairEnd : List UInt8 → ℕ
  | a :: b :: c :: d :: rest => if a = 0 ∧ b = 0 then 2 else 1 + pairEnd (b :: c :: d :: rest)
  | _ => 0

theorem pairEnd_of_lt {bytes : List UInt8} (h : bytes.length < headerSize) : pairEnd bytes = 0 := by
  rw [headerSize] at h
  unfold pairEnd
  split
  · simp at h
    omega
  · rfl

theorem pairEnd_cons {a b : UInt8} {rest : List UInt8} (h : 2 ≤ rest.length) :
    pairEnd (a :: b :: rest) = if a = 0 ∧ b = 0 then 2 else 1 + pairEnd (b :: rest) := by
  match rest, h with
  | c :: d :: rest, _ => rw [pairEnd]

theorem pairEnd_le (bytes : List UInt8) : pairEnd bytes ≤ bytes.length := by
  fun_induction pairEnd bytes with
  | case1 a b c d rest hzero => simp
  | case2 a b c d rest hzero ih =>
      rw [List.length_cons]
      omega
  | case3 bytes hshort => exact Nat.zero_le _

theorem pairEnd_pos {bytes : List UInt8} (h : headerSize ≤ bytes.length) : 0 < pairEnd bytes := by
  match bytes, h with
  | a :: b :: c :: d :: rest, _ =>
      rw [pairEnd]
      split_ifs <;> omega

theorem within_skipText {memory : List UInt8} {rounds next_table : ℕ}
    (h : memory.length ≤ next_table + rounds) :
    Within memory memory.length (skipText memory.length rounds next_table)
      (next_table + pairEnd (memory.drop next_table)) := by
  induction rounds generalizing next_table with
  | zero =>
      rw [Nat.add_zero] at h
      rw [List.drop_eq_nil_of_le h]
      exact within_pure _
  | succ rounds ih =>
      rw [skipText]
      split_ifs with hroom
      · rw [headerSize] at hroom
        have hrest : 2 ≤ (memory.drop (next_table + 2)).length := by
          rw [List.length_drop]
          omega
        have hnext := @ih (next_table + 1) (by omega)
        rw [drop_eq_cons (by omega : next_table < memory.length),
          drop_eq_cons (by omega : next_table + 1 < memory.length), pairEnd_cons hrest]
        rw [drop_eq_cons (by omega : next_table + 1 < memory.length), Nat.add_assoc] at hnext
        refine within_bind (within_byte (by omega) le_rfl) ?_
        by_cases hfirst : byteAt memory next_table = 0
        · rw [if_pos hfirst]
          refine within_bind (within_byte (by omega) le_rfl) ?_
          by_cases hsecond : byteAt memory (next_table + 1) = 0
          · rw [if_pos hsecond, if_pos ⟨hfirst, hsecond⟩]
            exact within_pure _
          · rw [if_neg hsecond, if_neg fun h => hsecond h.2]
            exact hnext
        · rw [if_neg hfirst, if_neg fun h => hfirst h.1]
          exact hnext
      · have hshort : (memory.drop next_table).length < headerSize := by
          rw [headerSize] at hroom ⊢
          rw [List.length_drop]
          omega
        rw [pairEnd_of_lt hshort]
        exact within_pure _

/-! ### The ranges of the calls -/

/-- The ranges follow one another from an offset on, are not empty and lie in the table. -/
def Consecutive (tables_end : ℕ) : ℕ → List Call → Prop
  | _, [] => True
  | table, call :: calls =>
      call.address = table ∧ 0 < call.size ∧ call.address + call.size ≤ tables_end ∧
        Consecutive tables_end (call.address + call.size) calls

/-- The text of a call begins at the length of its header, within the structure. -/
def Call.InOrder (memory : List UInt8) (call : Call) : Prop :=
  call.textAddrs = call.address + (byteAt memory (call.address + 1)).toNat ∧
    (byteAt memory (call.address + 1)).toNat ≤ call.size

section Walk

variable (memory : List UInt8) (table : ℕ)

/-- Where the text area of the structure begins. -/
def textAt : ℕ := table + (byteAt memory (table + 1)).toNat

/-- Where the next structure is looked for. -/
def nextAt : ℕ := textAt memory table + pairEnd (memory.drop (textAt memory table))

/-- The call for the structure. -/
def callAt (index : ℕ) : Call :=
  ⟨index, table, textAt memory table, nextAt memory table - table⟩

/-- The walk goes on with the structure. -/
def Continues : Prop :=
  table + headerSize ≤ memory.length ∧ textAt memory table ≤ memory.length ∧
    (byteAt memory (table + 1) == 0 && wordAt memory (table + 2) == 0) = false

variable {memory table}

theorem within_walk_of_continues (h : Continues memory table) {rounds index : ℕ}
    {calls : List Call}
    (hrest : Within memory memory.length
      (walk memory.length rounds (index + 1) (nextAt memory table)) (some calls)) :
    Within memory memory.length (walk memory.length (rounds + 1) index table)
      (some (callAt memory table index :: calls)) := by
  obtain ⟨hroom, hlong, hended⟩ := h
  have hpadded := within_nullPadded le_rfl hroom (byteAt memory (table + 1))
  rw [hended] at hpadded
  rw [textAt] at hlong
  rw [walk, if_pos hroom]
  rw [headerSize] at hroom
  refine within_bind (within_byte (by omega) le_rfl) ?_
  rw [if_neg (not_lt_of_ge hlong)]
  refine within_bind hpadded ?_
  rw [if_neg (by simp)]
  exact within_bind (within_skipText (Nat.le_add_left _ _)) (within_bind hrest (within_pure _))

theorem within_walk_of_not_continues (h : ¬ Continues memory table) (rounds index : ℕ) :
    Within memory memory.length (walk memory.length (rounds + 1) index table) (some []) := by
  rw [walk]
  by_cases hroom : table + headerSize ≤ memory.length
  · have hpadded := within_nullPadded le_rfl hroom (byteAt memory (table + 1))
    rw [if_pos hroom]
    have hread : table + 1 < memory.length := by
      rw [headerSize] at hroom
      omega
    refine within_bind (within_byte hread le_rfl) ?_
    by_cases hlong : table + (byteAt memory (table + 1)).toNat > memory.length
    · rw [if_pos hlong]
      exact within_pure _
    · cases hended : (byteAt memory (table + 1) == 0 && wordAt memory (table + 2) == 0) with
      | true =>
          rw [hended] at hpadded
          rw [if_neg hlong]
          exact within_bind hpadded (within_pure _)
      | false => exact absurd ⟨hroom, Nat.le_of_not_lt hlong, hended⟩ h
  · rw [if_neg hroom]
    exact within_pure _

/-- The next structure begins behind this one, at most at the end of the table. -/
theorem Continues.bounds (h : Continues memory table) :
    textAt memory table ≤ nextAt memory table ∧ table < nextAt memory table ∧
      nextAt memory table ≤ memory.length := by
  obtain ⟨hroom, hlong, -⟩ := h
  rw [headerSize] at hroom
  have hle := pairEnd_le (memory.drop (textAt memory table))
  rw [List.length_drop] at hle
  refine ⟨Nat.le_add_right _ _, ?_, by rw [nextAt]; omega⟩
  by_cases hzero : (byteAt memory (table + 1)).toNat = 0
  · have hpos : 0 < pairEnd (memory.drop (textAt memory table)) := by
      apply pairEnd_pos
      rw [headerSize, List.length_drop, textAt, hzero]
      omega
    rw [nextAt, textAt] at *
    omega
  · rw [nextAt, textAt]
    omega

end Walk

/-- Enough rounds end the walk, which reads the table only. -/
theorem exists_within_walk {memory : List UInt8} {rounds index table : ℕ}
    (htable : table ≤ memory.length) (h : memory.length < table + rounds) :
    ∃ calls, Within memory memory.length (walk memory.length rounds index table) (some calls) ∧
      Consecutive memory.length table calls ∧ ∀ call ∈ calls, call.InOrder memory := by
  induction rounds generalizing index table with
  | zero => omega
  | succ rounds ih =>
      by_cases hcontinues : Continues memory table
      · obtain ⟨htext, hnext, hend⟩ := hcontinues.bounds
        obtain ⟨calls, hwithin, hconsecutive, horder⟩ := @ih (index + 1) _ hend (by omega)
        refine ⟨_, within_walk_of_continues hcontinues hwithin, ⟨rfl, ?_, ?_, ?_⟩, ?_⟩
        · exact Nat.sub_pos_of_lt hnext
        · change table + (nextAt memory table - table) ≤ memory.length
          omega
        · change Consecutive memory.length (table + (nextAt memory table - table)) calls
          rw [Nat.add_sub_cancel' hnext.le]
          exact hconsecutive
        · intro call hcall
          rcases List.mem_cons.1 hcall with rfl | hcall
          · refine ⟨rfl, ?_⟩
            change (byteAt memory (table + 1)).toNat ≤ nextAt memory table - table
            rw [textAt] at htext
            exact Nat.le_sub_of_add_le' htext
          · exact horder call hcall
      · exact ⟨[], within_walk_of_not_continues hcontinues rounds index, trivial,
          fun _ hcall => by cases hcall⟩

/-! ### Strings of a text area -/

section Strings

variable {memory : List UInt8} {n data maxlen : ℕ}

/-- As long as the counted size stays in the text area, it is the distance from its beginning. -/
theorem exists_within_skipCharacters (hn : n ≤ memory.length) (hend : data + maxlen ≤ n)
    {rounds size : ℕ} (hsize : size ≤ maxlen - 1) (hrounds : maxlen ≤ size + rounds)
    (hmaxlen : maxlen ≠ 0) :
    ∃ r, Within memory n (skipCharacters maxlen rounds (data + size) size) r ∧
      (r.2 ≤ maxlen - 1 → r.1 = data + r.2) := by
  induction rounds generalizing size with
  | zero => omega
  | succ rounds ih =>
      have hbyte : Within memory n (byte (data + size)) (byteAt memory (data + size)) :=
        within_byte (by omega) hn
      by_cases hzero : byteAt memory (data + size) ≠ 0
      · by_cases hlong : size + 1 > maxlen - 1
        · refine ⟨(data + size, size + 1), within_bind hbyte ?_, ?_⟩
          · rw [if_pos hzero, if_pos hlong]
            exact within_pure _
          · intro hle
            exact absurd hle (Nat.not_le.2 hlong)
        · obtain ⟨r, hwithin, hdistance⟩ := @ih (size + 1) (by omega) (by omega)
          refine ⟨r, within_bind hbyte ?_, hdistance⟩
          rw [if_pos hzero, if_neg hlong]
          exact hwithin
      · refine ⟨(data + size, size), within_bind hbyte ?_, fun _ => rfl⟩
        rw [if_neg hzero]
        exact within_pure _

theorem exists_within_skipStrings (hn : n ≤ memory.length) (hend : data + maxlen ≤ n)
    (hmaxlen : maxlen ≠ 0) {before bp size : ℕ} (hbp : size ≤ maxlen - 1 → bp = data + size) :
    ∃ r, Within memory n (skipStrings maxlen before bp size) r ∧
      (r.2 ≤ maxlen - 1 → r.1 = data + r.2) := by
  induction before generalizing bp size with
  | zero => exact ⟨(bp, size), within_pure _, hbp⟩
  | succ before ih =>
      rw [skipStrings]
      by_cases hlong : size > maxlen - 1
      · rw [if_pos hlong]
        exact ⟨(bp, size), within_pure _, hbp⟩
      · obtain rfl := hbp (Nat.le_of_not_lt hlong)
        obtain ⟨skipped, hskipped, hdistance⟩ := exists_within_skipCharacters hn hend
          (Nat.le_of_not_lt hlong) (Nat.le_add_left maxlen size) hmaxlen
        obtain ⟨r, hr, hdistance'⟩ := @ih (skipped.1 + 1) (skipped.2 + 1) (by omega)
        rw [if_neg hlong]
        exact ⟨r, within_bind hskipped hr, hdistance'⟩

/-- A string is read from the bytes of its text area. -/
theorem safe_dmiString (hn : n ≤ memory.length) (hend : data + maxlen ≤ n) (index : UInt8) :
    Safe memory n (dmiString data index maxlen) := by
  rw [dmiString]
  by_cases hnone : index = 0 ∨ maxlen = 0
  · rw [if_pos hnone]
    exact safe_pure _
  · rw [if_neg hnone]
    have hmaxlen : maxlen ≠ 0 := fun h => hnone (.inr h)
    have hlast : Within memory n (byte (data + maxlen - 1)) (byteAt memory (data + maxlen - 1)) :=
      within_byte (by omega) hn
    refine hlast.safe_bind ?_
    by_cases hzero : byteAt memory (data + maxlen - 1) ≠ 0
    · rw [if_pos hzero]
      exact safe_pure _
    · have hstart : 0 ≤ maxlen - 1 → data = data + 0 := fun _ => rfl
      obtain ⟨found, hfound, hdistance⟩ := @exists_within_skipStrings _ _ _ _ hn hend hmaxlen
        (index.toNat - 1) _ _ hstart
      rw [if_neg hzero]
      refine hfound.safe_bind ?_
      by_cases hlong : found.2 > maxlen - 1
      · rw [if_pos hlong]
        exact safe_pure _
      · have hle := hdistance (Nat.le_of_not_lt hlong)
        rw [if_neg hlong]
        exact (within_map _ (within_text (by omega) (by omega) hn (not_not.1 hzero))).safe

end Strings

end Osquery.Smbios
