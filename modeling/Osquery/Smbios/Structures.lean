import Osquery.Smbios.Parser

/-!
# Well-formed structures

The walk over a concatenation of well-formed structures calls the predicate for each of them
with its range, except for the last one: the search for the end of a text area keeps room for a
header, so the size of the last structure falls short by up to three bytes of its text area.
-/

namespace Osquery.Smbios

open Foundation.ByteReads

/-- Strings with a zero byte behind each, and one more. -/
def packed (strings : List (List UInt8)) : List UInt8 := strings.flatMap (· ++ [0]) ++ [0]

/-- A formatted area with its length in its second byte, and the strings behind it. -/
structure Structure where
  formatted : List UInt8
  strings : List (List UInt8)
  length_ge : headerSize ≤ formatted.length
  length_lt : formatted.length < 256
  length_byte : formatted[1]? = some (UInt8.ofNat formatted.length)
  string_ne_nil : ∀ str ∈ strings, str ≠ []
  string_no_zero : ∀ str ∈ strings, ∀ c ∈ str, c ≠ 0

namespace Structure

/-- The text area; without strings there are two zero bytes. -/
def textArea (s : Structure) : List UInt8 := if s.strings = [] then [0, 0] else packed s.strings

def bytes (s : Structure) : List UInt8 := s.formatted ++ s.textArea

end Structure

/-- The calls with the own range of each structure. -/
def exactCalls : ℕ → ℕ → List Structure → List Call
  | _, _, [] => []
  | index, address, s :: structures =>
      ⟨index, address, address + s.formatted.length, s.bytes.length⟩ ::
        exactCalls (index + 1) (address + s.bytes.length) structures

/-! ### The end of a text area -/

theorem packed_cons (str : List UInt8) (strings : List (List UInt8)) :
    packed (str :: strings) = str ++ 0 :: packed strings := by
  simp [packed]

theorem length_packed_pos (strings : List (List UInt8)) : 0 < (packed strings).length := by
  simp [packed]

/-- The search passes the characters of a string. -/
theorem pairEnd_append {str rest : List UInt8} (hstr : ∀ c ∈ str, c ≠ 0) (hrest : 3 ≤ rest.length) :
    pairEnd (str ++ rest) = str.length + pairEnd rest := by
  induction str with
  | nil => simp
  | cons c str ih =>
      have hc : c ≠ 0 := hstr c List.mem_cons_self
      have htail := ih fun d hd => hstr d (List.mem_cons_of_mem _ hd)
      obtain ⟨d, more, hmore⟩ : ∃ d more, str ++ rest = d :: more :=
        List.exists_cons_of_length_pos (by rw [List.length_append]; omega)
      have hlength : 2 ≤ more.length := by
        have heq := congrArg List.length hmore
        rw [List.length_append, List.length_cons] at heq
        omega
      rw [List.cons_append, hmore, pairEnd_cons hlength, if_neg fun h => hc h.1, ← hmore, htail,
        List.length_cons]
      omega

/-- The search passes a zero byte before a string. -/
theorem pairEnd_zero_cons {c : UInt8} {rest : List UInt8} (hc : c ≠ 0) (hrest : 2 ≤ rest.length) :
    pairEnd (0 :: c :: rest) = 1 + pairEnd (c :: rest) := by
  rw [pairEnd_cons hrest, if_neg fun h => hc h.2]

section Packed

variable {strings : List (List UInt8)}

theorem packed_eq_cons (hne : strings ≠ []) (hnil : ∀ str ∈ strings, str ≠ [])
    (hzero : ∀ str ∈ strings, ∀ c ∈ str, c ≠ 0) :
    ∃ c rest, packed strings = c :: rest ∧ c ≠ 0 ∧ 2 ≤ rest.length := by
  obtain ⟨str, strings, rfl⟩ := List.exists_cons_of_ne_nil hne
  obtain ⟨c, str, rfl⟩ := List.exists_cons_of_ne_nil (hnil str List.mem_cons_self)
  have hpos := length_packed_pos strings
  refine ⟨c, str ++ 0 :: packed strings, ?_, ?_, ?_⟩
  · rw [packed_cons, List.cons_append]
  · exact hzero _ List.mem_cons_self c List.mem_cons_self
  · rw [List.length_append, List.length_cons]
    omega

/-- Behind the strings there are more bytes: the search ends behind the two zero bytes. -/
theorem pairEnd_packed_append (hne : strings ≠ []) (hnil : ∀ str ∈ strings, str ≠ [])
    (hzero : ∀ str ∈ strings, ∀ c ∈ str, c ≠ 0) {rest : List UInt8} (hrest : 2 ≤ rest.length) :
    pairEnd (packed strings ++ rest) = (packed strings).length := by
  induction strings with
  | nil => exact absurd rfl hne
  | cons str strings ih =>
      have hstr := hzero str List.mem_cons_self
      have hpos := length_packed_pos strings
      have hnil' : ∀ s ∈ strings, s ≠ [] := fun s hs => hnil s (List.mem_cons_of_mem _ hs)
      have hzero' : ∀ s ∈ strings, ∀ c ∈ s, c ≠ 0 := fun s hs => hzero s (List.mem_cons_of_mem _ hs)
      rw [packed_cons, List.append_assoc, List.cons_append,
        pairEnd_append hstr (by rw [List.length_cons, List.length_append]; omega),
        List.length_append, List.length_cons]
      by_cases hlast : strings = []
      · subst hlast
        change str.length + pairEnd (0 :: 0 :: rest) = _
        rw [pairEnd_cons hrest, if_pos ⟨rfl, rfl⟩]
        rfl
      · obtain ⟨c, more, hpacked, hc, hmore⟩ := packed_eq_cons hlast hnil' hzero'
        have hnext := ih hlast hnil' hzero'
        rw [hpacked, List.cons_append] at hnext ⊢
        rw [pairEnd_zero_cons hc (by rw [List.length_append]; omega), hnext]
        omega

/-- The table ends with the strings: the search ends three bytes before. -/
theorem pairEnd_packed (hne : strings ≠ []) (hnil : ∀ str ∈ strings, str ≠ [])
    (hzero : ∀ str ∈ strings, ∀ c ∈ str, c ≠ 0) :
    pairEnd (packed strings) = (packed strings).length - 3 := by
  induction strings with
  | nil => exact absurd rfl hne
  | cons str strings ih =>
      have hstr := hzero str List.mem_cons_self
      have hnil' : ∀ s ∈ strings, s ≠ [] := fun s hs => hnil s (List.mem_cons_of_mem _ hs)
      have hzero' : ∀ s ∈ strings, ∀ c ∈ s, c ≠ 0 := fun s hs => hzero s (List.mem_cons_of_mem _ hs)
      rw [packed_cons, List.length_append, List.length_cons]
      by_cases hlast : strings = []
      · subst hlast
        -- The last character and the two zero bytes have no room for a header.
        have hstr_ne := hnil str List.mem_cons_self
        have hinit : ∀ c ∈ str.dropLast, c ≠ 0 := fun c hc =>
          hstr c ((List.dropLast_sublist str).subset hc)
        have hlength : 0 < str.length := List.length_pos_of_ne_nil hstr_ne
        have hsplit : str ++ 0 :: packed [] = str.dropLast ++ [str.getLast hstr_ne, 0, 0] := by
          conv_lhs => rw [← List.dropLast_append_getLast hstr_ne, List.append_assoc]
          rfl
        have hshort : pairEnd [str.getLast hstr_ne, 0, 0] = 0 := rfl
        have hthree : 3 ≤ [str.getLast hstr_ne, 0, 0].length := le_rfl
        have hone : (packed []).length = 1 := rfl
        rw [hsplit, pairEnd_append hinit hthree, hshort, List.length_dropLast, hone]
        omega
      · obtain ⟨c, more, hpacked, hc, hmore⟩ := packed_eq_cons hlast hnil' hzero'
        have hnext := ih hlast hnil' hzero'
        rw [hpacked] at hnext ⊢
        rw [pairEnd_append hstr (by rw [List.length_cons, List.length_cons]; omega),
          pairEnd_zero_cons hc hmore, hnext, List.length_cons]
        omega

end Packed

namespace Structure

variable (s : Structure)

theorem pairEnd_textArea_append {rest : List UInt8} (hrest : 2 ≤ rest.length) :
    pairEnd (s.textArea ++ rest) = s.textArea.length := by
  rw [textArea]
  split_ifs with hnone
  · change pairEnd (0 :: 0 :: rest) = 2
    rw [pairEnd_cons hrest, if_pos ⟨rfl, rfl⟩]
  · exact pairEnd_packed_append hnone s.string_ne_nil s.string_no_zero hrest

theorem pairEnd_textArea : pairEnd s.textArea = s.textArea.length - 3 := by
  rw [textArea]
  split_ifs with hnone
  · rfl
  · exact pairEnd_packed hnone s.string_ne_nil s.string_no_zero

theorem two_le_length_textArea : 2 ≤ s.textArea.length := by
  rw [textArea]
  split_ifs with hnone
  · exact Nat.le_refl 2
  · obtain ⟨c, rest, hpacked, -, hrest⟩ := packed_eq_cons hnone s.string_ne_nil s.string_no_zero
    rw [hpacked, List.length_cons]
    omega

end Structure

/-! ### The calls -/

/-- The calls with the ranges that the walk finds. -/
def measuredCalls : ℕ → ℕ → List Structure → List Call
  | _, _, [] => []
  | index, address, s :: structures =>
      ⟨index, address, address + s.formatted.length,
        if structures = [] then s.formatted.length + (s.textArea.length - 3)
        else s.bytes.length⟩ ::
        measuredCalls (index + 1) (address + s.bytes.length) structures

/-- The bytes of a table that consists of the structures. -/
def dataOf (structures : List Structure) : List UInt8 := structures.flatMap Structure.bytes

namespace Structure

variable (s : Structure)

theorem length_bytes : s.bytes.length = s.formatted.length + s.textArea.length := by
  rw [bytes, List.length_append]

theorem six_le_length_bytes : 6 ≤ s.bytes.length := by
  have hformatted := s.length_ge
  have htext := s.two_le_length_textArea
  rw [headerSize] at hformatted
  rw [length_bytes]
  omega

section Walk

variable {s} {memory rest : List UInt8} {table : ℕ} (h : memory.drop table = s.bytes ++ rest)

include h

theorem length_of_drop : memory.length = table + s.bytes.length + rest.length := by
  have hlength := congrArg List.length h
  have hsix := s.six_le_length_bytes
  rw [List.length_drop, List.length_append] at hlength
  omega

theorem textAt_of_drop : textAt memory table = table + s.formatted.length := by
  have hget := congrArg (·[1]?) h
  have hformatted := s.length_ge
  rw [headerSize] at hformatted
  simp only [List.getElem?_drop, bytes, List.append_assoc] at hget
  rw [List.getElem?_append_left (by omega), s.length_byte] at hget
  rw [textAt, byteAt, List.getD_eq_getElem?_getD, hget, Option.getD_some,
    UInt8.toNat_ofNat_of_lt' s.length_lt]

theorem drop_textAt : memory.drop (textAt memory table) = s.textArea ++ rest := by
  rw [textAt_of_drop h, ← List.drop_drop, h, bytes, List.append_assoc, List.drop_left]

theorem drop_bytes : memory.drop (table + s.bytes.length) = rest := by
  rw [← List.drop_drop, h, List.drop_left]

theorem continues_of_drop : Continues memory table := by
  have htext := textAt_of_drop h
  have hlength := length_of_drop h
  have hbytes := s.length_bytes
  have hsix := s.six_le_length_bytes
  have hformatted := s.length_ge
  rw [headerSize] at hformatted
  refine ⟨by rw [headerSize]; omega, by omega, ?_⟩
  have hlength_byte : byteAt memory (table + 1) ≠ 0 := by
    intro hzero
    rw [textAt, hzero, UInt8.toNat_zero] at htext
    omega
  simp [hlength_byte]

end Walk

end Structure

theorem not_continues_of_lt {memory : List UInt8} {table : ℕ}
    (h : memory.length < table + headerSize) : ¬ Continues memory table :=
  fun hcontinues => absurd hcontinues.1 (Nat.not_le_of_lt h)

/-- The walk finds every structure from an address on. -/
theorem within_walk_of_drop {memory : List UInt8} {structures : List Structure}
    {rounds index table : ℕ} (h : memory.drop table = dataOf structures)
    (htable : table ≤ memory.length) (hrounds : memory.length < table + rounds) :
    Within memory memory.length (walk memory.length rounds index table)
      (some (measuredCalls index table structures)) := by
  induction structures generalizing rounds index table with
  | nil =>
      obtain ⟨rounds, rfl⟩ := Nat.exists_eq_add_one_of_ne_zero (by omega : rounds ≠ 0)
      have hend : memory.length ≤ table := List.drop_eq_nil_iff.1 h
      refine within_walk_of_not_continues (not_continues_of_lt ?_) rounds index
      rw [headerSize]
      omega
  | cons s structures ih =>
      change memory.drop table = s.bytes ++ dataOf structures at h
      have hlength := s.length_of_drop h
      have hbytes := s.length_bytes
      have hsix := s.six_le_length_bytes
      have htext := Structure.textAt_of_drop h
      obtain ⟨rounds, rfl⟩ := Nat.exists_eq_add_one_of_ne_zero (by omega : rounds ≠ 0)
      have hcontinues := Structure.continues_of_drop h
      have hdrop := Structure.drop_textAt h
      cases structures with
      | nil =>
          have hempty : dataOf [] = [] := rfl
          -- No header has room behind the last structure, but bytes of its text area are left.
          have hnext : nextAt memory table =
              table + s.formatted.length + (s.textArea.length - 3) := by
            rw [nextAt, hdrop, htext, hempty, List.append_nil, s.pairEnd_textArea]
          have hend : memory.length < nextAt memory table + headerSize := by
            rw [hnext, headerSize, hlength, hempty, List.length_nil]
            omega
          have hsize : nextAt memory table - table =
              s.formatted.length + (s.textArea.length - 3) := by
            omega
          obtain ⟨rounds, rfl⟩ := Nat.exists_eq_add_one_of_ne_zero (by omega : rounds ≠ 0)
          have hrest := within_walk_of_not_continues (not_continues_of_lt hend) rounds (index + 1)
          have hwalk := within_walk_of_continues hcontinues hrest
          rw [callAt, htext, hsize] at hwalk
          exact hwalk
      | cons t structures =>
          have hrest : 2 ≤ (dataOf (t :: structures)).length := by
            have hsix' := t.six_le_length_bytes
            rw [dataOf, List.flatMap_cons, List.length_append]
            omega
          have hnext : nextAt memory table = table + s.bytes.length := by
            rw [nextAt, hdrop, s.pairEnd_textArea_append hrest, htext, hbytes, Nat.add_assoc]
          have hwithin := @ih rounds (index + 1) (table + s.bytes.length) (Structure.drop_bytes h)
            (by omega) (by omega)
          rw [← hnext] at hwithin
          have hwalk := within_walk_of_continues hcontinues hwithin
          rw [callAt, htext, hnext, Nat.add_sub_cancel_left] at hwalk
          exact hwalk

end Osquery.Smbios
