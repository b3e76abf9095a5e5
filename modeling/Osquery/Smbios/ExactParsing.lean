import Osquery.Smbios.Structures

/-!
# Exact parsing of well-formed structures

With the full size of a text area every string is found by its number. The walk gives the full
size for every structure but the last one, so the structures of a table are never all parsed
exactly.
-/

namespace Osquery.Smbios

open Foundation.ByteReads

/-! ### The strings -/

/-- Texts with a zero byte behind each. -/
def terminated (texts : List (List UInt8)) : List UInt8 := texts.flatMap (· ++ [0])

theorem terminated_cons (str : List UInt8) (texts : List (List UInt8)) :
    terminated (str :: texts) = str ++ 0 :: terminated texts := by
  simp [terminated]

theorem terminated_eq_append {texts : List (List UInt8)} (h : texts ≠ []) :
    ∃ front, terminated texts = front ++ [0] := by
  rw [← List.dropLast_append_getLast h]
  exact ⟨terminated texts.dropLast ++ texts.getLast h, by simp [terminated]⟩

section Skip

variable {memory rest : List UInt8} {maxlen bp size : ℕ}

theorem within_skipCharacters {str : List UInt8} {rounds : ℕ}
    (h : memory.drop bp = str ++ 0 :: rest) (hstr : ∀ c ∈ str, c ≠ 0)
    (hsize : size + str.length < maxlen) (hrounds : str.length < rounds) :
    Within memory memory.length (skipCharacters maxlen rounds bp size)
      (bp + str.length, size + str.length) := by
  induction str generalizing rounds bp size with
  | nil =>
      obtain ⟨rounds, rfl⟩ := Nat.exists_eq_add_one_of_ne_zero (by omega : rounds ≠ 0)
      refine within_bind (within_byte_of_drop h) ?_
      rw [if_neg (by simp)]
      exact within_pure _
  | cons c str ih =>
      rw [List.length_cons] at hsize hrounds
      obtain ⟨rounds, rfl⟩ := Nat.exists_eq_add_one_of_ne_zero (by omega : rounds ≠ 0)
      have hnext : memory.drop (bp + 1) = str ++ 0 :: rest := by
        rw [← List.drop_drop, h]
        rfl
      have hskipped := @ih (bp + 1) (size + 1) rounds hnext
        (fun d hd => hstr d (List.mem_cons_of_mem _ hd)) (by omega) (by omega)
      rw [Nat.add_right_comm bp, Nat.add_right_comm size] at hskipped
      refine within_bind (within_byte_of_drop h) ?_
      rw [if_pos (hstr c List.mem_cons_self), if_neg (by omega)]
      exact hskipped

/-- A text is passed with its zero byte. -/
theorem within_skipStrings_succ {str : List UInt8} {before : ℕ} {r : ℕ × ℕ}
    (h : memory.drop bp = str ++ 0 :: rest) (hstr : ∀ c ∈ str, c ≠ 0)
    (hsize : size + str.length < maxlen)
    (hr : Within memory memory.length
      (skipStrings maxlen before (bp + str.length + 1) (size + str.length + 1)) r) :
    Within memory memory.length (skipStrings maxlen (before + 1) bp size) r := by
  rw [skipStrings, if_neg (by omega)]
  exact within_bind (within_skipCharacters h hstr hsize (by omega)) hr

theorem within_skipStrings_of_gt (h : size > maxlen - 1) (before : ℕ) :
    Within memory memory.length (skipStrings maxlen before bp size) (bp, size) := by
  cases before with
  | zero => exact within_pure _
  | succ before =>
      rw [skipStrings, if_pos h]
      exact within_pure _

variable {texts : List (List UInt8)}

theorem drop_terminated_cons {str : List UInt8}
    (h : memory.drop bp = terminated (str :: texts) ++ rest) :
    memory.drop bp = str ++ 0 :: (terminated texts ++ rest) ∧
      memory.drop (bp + str.length + 1) = terminated texts ++ rest := by
  rw [terminated_cons, List.append_assoc, List.cons_append] at h
  refine ⟨h, ?_⟩
  rw [← List.drop_drop, ← List.drop_drop, h, List.drop_left]
  rfl

theorem exists_within_skipStrings_of_some (h : memory.drop bp = terminated texts ++ rest)
    (hzero : ∀ str ∈ texts, ∀ c ∈ str, c ≠ 0) (hsize : size + (terminated texts).length ≤ maxlen)
    {before : ℕ} {str : List UInt8} (hstr : texts[before]? = some str) :
    ∃ r, Within memory memory.length (skipStrings maxlen before bp size) r ∧ r.2 ≤ maxlen - 1 ∧
      ∃ more, memory.drop r.1 = str ++ 0 :: more := by
  induction texts generalizing before bp size with
  | nil => cases hstr
  | cons first texts ih =>
      obtain ⟨hfirst, hnext⟩ := drop_terminated_cons h
      rw [terminated_cons, List.length_append, List.length_cons] at hsize
      cases before with
      | zero =>
          obtain rfl : first = str := Option.some.inj hstr
          refine ⟨(bp, size), within_pure _, ?_, _, hfirst⟩
          change size ≤ maxlen - 1
          omega
      | succ before =>
          obtain ⟨r, hr, hfound⟩ := @ih _ (size + first.length + 1) hnext
            (fun t ht => hzero t (List.mem_cons_of_mem _ ht)) (by omega) before hstr
          exact ⟨r, within_skipStrings_succ hfirst (hzero first List.mem_cons_self) (by omega) hr,
            hfound⟩

theorem exists_within_skipStrings_of_none (h : memory.drop bp = terminated texts ++ rest)
    (hzero : ∀ str ∈ texts, ∀ c ∈ str, c ≠ 0) (hmaxlen : 0 < maxlen)
    (hsize : size + (terminated texts).length = maxlen) {before : ℕ}
    (hnone : texts[before]? = none) :
    ∃ r, Within memory memory.length (skipStrings maxlen before bp size) r ∧ maxlen - 1 < r.2 := by
  induction texts generalizing before bp size with
  | nil =>
      have hgt : size > maxlen - 1 := by
        rw [terminated, List.flatMap_nil, List.length_nil] at hsize
        omega
      exact ⟨_, within_skipStrings_of_gt hgt before, hgt⟩
  | cons first texts ih =>
      obtain ⟨hfirst, hnext⟩ := drop_terminated_cons h
      rw [terminated_cons, List.length_append, List.length_cons] at hsize
      cases before with
      | zero => cases hnone
      | succ before =>
          obtain ⟨r, hr, hfar⟩ := @ih _ (size + first.length + 1) hnext
            (fun t ht => hzero t (List.mem_cons_of_mem _ ht)) (by omega) before hnone
          exact ⟨r, within_skipStrings_succ hfirst (hzero first List.mem_cons_self) (by omega) hr,
            hfar⟩

/-- Every text is found by its number, counted from one. -/
theorem within_dmiString (hne : texts ≠ []) (h : memory.drop bp = terminated texts ++ rest)
    (hzero : ∀ str ∈ texts, ∀ c ∈ str, c ≠ 0) {index : UInt8} (hindex : index ≠ 0) :
    Within memory memory.length (dmiString bp index (terminated texts).length)
      (trimRight (texts[index.toNat - 1]?.getD [])) := by
  obtain ⟨front, hfront⟩ := terminated_eq_append hne
  have hlength : (terminated texts).length = front.length + 1 := by
    rw [hfront, List.length_append, List.length_singleton]
  have hlast : memory.drop (bp + (terminated texts).length - 1) = 0 :: rest := by
    rw [hlength, ← Nat.add_assoc, Nat.add_sub_cancel, ← List.drop_drop, h, hfront,
      List.append_assoc, List.drop_left]
    rfl
  rw [dmiString, if_neg (by simp [hindex, hlength])]
  refine within_bind (within_byte_of_drop hlast) ?_
  rw [if_neg (by simp)]
  cases hfound : texts[index.toNat - 1]? with
  | none =>
      obtain ⟨r, hr, hfar⟩ := exists_within_skipStrings_of_none h hzero (by omega)
        (Nat.zero_add _) hfound
      refine within_bind hr ?_
      rw [if_pos hfar]
      exact within_pure _
  | some str =>
      obtain ⟨r, hr, hnear, more, hmore⟩ := exists_within_skipStrings_of_some h hzero
        (Nat.zero_add _).le hfound
      refine within_bind hr ?_
      rw [if_neg (Nat.not_lt.2 hnear)]
      exact within_map _ (within_text_of_drop hmore (hzero str (List.mem_of_getElem? hfound)))

end Skip

namespace Structure

variable (s : Structure)

/-- The texts of the text area, of which the last one is empty. -/
def texts : List (List UInt8) := if s.strings = [] then [[], []] else s.strings ++ [[]]

/-- The string with a number, counted from one, without the white space behind it. -/
def string (index : UInt8) : List UInt8 :=
  if 1 ≤ index.toNat ∧ index.toNat ≤ s.strings.length then
    trimRight (s.strings.getD (index.toNat - 1) [])
  else []

theorem textArea_eq : s.textArea = terminated s.texts := by
  rw [textArea, texts]
  split_ifs with hnone
  · rfl
  · simp [packed, terminated]

theorem texts_ne_nil : s.texts ≠ [] := by
  rw [texts]
  split_ifs with hnone <;> simp

theorem ne_zero_of_mem_texts : ∀ str ∈ s.texts, ∀ c ∈ str, c ≠ 0 := by
  intro str hstr c hc
  rw [texts] at hstr
  split_ifs at hstr with hnone
  · have hempty : str = [] := by simpa using hstr
    rw [hempty] at hc
    cases hc
  · rcases List.mem_append.1 hstr with hstr | hstr
    · exact s.string_no_zero str hstr c hc
    · rw [List.mem_singleton.1 hstr] at hc
      cases hc

theorem getD_texts (i : ℕ) : s.texts[i]?.getD [] = s.strings.getD i [] := by
  rw [texts, List.getD_eq_getElem?_getD]
  split_ifs with hnone
  · rw [hnone]
    rcases i with _ | _ | i <;> rfl
  · rw [List.getElem?_append]
    split_ifs with hi
    · rfl
    · rw [List.getElem?_eq_none (Nat.le_of_not_lt hi)]
      rcases i - s.strings.length with _ | j <;> rfl

theorem string_eq_trimRight {index : UInt8} (h : index ≠ 0) :
    s.string index = trimRight (s.texts[index.toNat - 1]?.getD []) := by
  have hpos : 1 ≤ index.toNat := Nat.one_le_iff_ne_zero.2 fun hzero => h (UInt8.toNat_inj.1 hzero)
  rw [getD_texts, string]
  split_ifs with hinside
  · rfl
  · rw [List.getD_eq_default _ _ (by omega)]
    rfl

end Structure

/-! ### Exact parsing -/

/-- With the full sizes of the structures, the strings are found by their numbers. -/
def StringsFound (structures : List Structure) : Prop :=
  ∀ before s after, structures = before ++ s :: after → ∀ index : UInt8,
    Returns (dataOf structures)
      (dmiString ((dataOf before).length + s.formatted.length) index
        (s.bytes.length - s.formatted.length)) (s.string index)

/-- The predicate is called once for every structure, in order and with its own range, and the
strings are found by their numbers in the text areas. -/
structure ParsedExactly (structures : List Structure) : Prop where
  calls : Returns (dataOf structures) (tables (dataOf structures).length)
    (some (exactCalls 0 0 structures))
  strings : StringsFound structures

theorem returns_tables (structures : List Structure) :
    Returns (dataOf structures) (tables (dataOf structures).length)
      (some (measuredCalls 0 0 structures)) :=
  (within_walk_of_drop rfl (Nat.zero_le _) (by omega)).returns

theorem stringsFound (structures : List Structure) : StringsFound structures := by
  rintro before s after rfl index
  rw [s.length_bytes, Nat.add_sub_cancel_left]
  by_cases hindex : index = 0
  · subst hindex
    exact ⟨[], rfl⟩
  · have hdata : dataOf (before ++ s :: after) = dataOf before ++ (s.bytes ++ dataOf after) := by
      rw [dataOf, List.flatMap_append, List.flatMap_cons]
      rfl
    have hdrop : (dataOf (before ++ s :: after)).drop
        ((dataOf before).length + s.formatted.length) =
          terminated s.texts ++ dataOf after := by
      rw [hdata, ← List.drop_drop, List.drop_left, Structure.bytes, List.append_assoc,
        List.drop_left, s.textArea_eq]
    rw [s.string_eq_trimRight hindex, s.textArea_eq]
    exact (within_dmiString s.texts_ne_nil hdrop s.ne_zero_of_mem_texts hindex).returns

/-- The range of the last structure is never its own. -/
theorem eq_nil_of_measuredCalls_eq {structures : List Structure} {index address : ℕ}
    (h : measuredCalls index address structures = exactCalls index address structures) :
    structures = [] := by
  induction structures generalizing index address with
  | nil => rfl
  | cons s structures ih =>
      obtain ⟨hcall, hcalls⟩ := List.cons.inj h
      have hnone := ih hcalls
      have hsize := congrArg Call.size hcall
      have htext := s.two_le_length_textArea
      simp only [hnone, if_true, s.length_bytes] at hsize
      omega

/-- Only the empty table is parsed exactly: the calls are those with the measured ranges, although
the strings are found in the full text areas. -/
theorem parsedExactly_iff (structures : List Structure) :
    (ParsedExactly structures ↔ structures = []) ∧
      Returns (dataOf structures) (tables (dataOf structures).length)
        (some (measuredCalls 0 0 structures)) ∧
      StringsFound structures := by
  have hcalls := returns_tables structures
  refine ⟨⟨fun h => ?_, ?_⟩, hcalls, stringsFound structures⟩
  · exact eq_nil_of_measuredCalls_eq (Option.some.inj (hcalls.unique h.calls))
  · rintro rfl
    exact ⟨hcalls, stringsFound []⟩

/-- A table with the structure that marks its end. -/
def endOfTable : Structure where
  formatted := [127, 4, 0, 0]
  strings := []
  length_ge := le_rfl
  length_lt := by decide
  length_byte := rfl
  string_ne_nil := fun _ h => by cases h
  string_no_zero := fun _ h => by cases h

theorem endOfTable_without_text :
    Returns [127, 4, 0, 0, 0, 0] (tables 6) (some [⟨0, 0, 4, 4⟩]) ∧
      ¬ ParsedExactly [endOfTable] := by
  have hcalls : Returns [127, 4, 0, 0, 0, 0] (tables 6) (some [⟨0, 0, 4, 4⟩]) := ⟨[1], rfl⟩
  refine ⟨hcalls, fun h => ?_⟩
  have hsame := Option.some.inj (hcalls.unique h.calls)
  exact absurd hsame (by decide)

end Osquery.Smbios
