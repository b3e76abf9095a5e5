import Osquery.Smbios.Fields

/-!
# Reads within the structures

The walk ends on all bytes, and its ranges follow one another inside the table. The row
generators read their fields only where the range has room for all of them, and the strings only
up to a zero byte at the end of the range.
-/

namespace Osquery.Smbios

open Foundation.ByteReads

section Columns

variable {memory : List UInt8} {n offset : ℕ} (hn : n ≤ memory.length)

include hn

theorem safe_byteNumber (h : offset < n) (name : String) (shown : ℕ → Option String) :
    Safe memory n (Column.number name (byteNumber offset) shown).read :=
  ((extent_number (extent_byteNumber (Nat.lt_of_lt_of_le h hn)) name shown).within h).safe

theorem safe_word (h : offset + 2 ≤ n) (name : String) (shown : ℕ → Option String) :
    Safe memory n (Column.number name (dmiToWord offset) shown).read :=
  ((extent_number (extent_dmiToWord (h.trans hn)) name shown).within h).safe

theorem safe_dword (h : offset + 4 ≤ n) (name : String) (shown : ℕ → Option String) :
    Safe memory n (Column.number name (dmiToDWord offset) shown).read :=
  ((extent_number (extent_dmiToDWord (h.trans hn)) name shown).within h).safe

theorem safe_size (h : 0x20 ≤ n) : Safe memory n (dmiToWord 0x0C >>= sizeFor) := by
  obtain ⟨value, hsize, -⟩ := exists_extent_sizeFor (h.trans hn) (wordAt memory 0x0C)
  have hbits := @extent_dmiToWord memory 0x0C (by omega)
  refine ((extent_bind hbits hsize).within ?_).safe
  split_ifs <;> omega

theorem safe_capacity (h : 0x17 ≤ n) : Safe memory n (dmiToDWord 0x07 >>= capacityFor) := by
  obtain ⟨text, hcapacity⟩ := exists_extent_capacityFor (h.trans hn) (dwordAt memory 0x07)
  have hcap := @extent_dmiToDWord memory 0x07 (by omega)
  refine ((extent_bind hcap hcapacity).within ?_).safe
  split_ifs <;> omega

theorem safe_address {extended : ℕ} (h : offset + 4 ≤ n) (hextended : extended + 8 ≤ n)
    (hroom : 8 ≤ n) : Safe memory n (dmiToDWord 0x04 >>= addressFor offset extended) := by
  obtain ⟨text, haddress⟩ :=
    exists_extent_addressFor (h.trans hn) (hextended.trans hn) (dwordAt memory 0x04)
  have haddr := @extent_dmiToDWord memory 0x04 (by omega)
  refine ((extent_bind haddr haddress).within ?_).safe
  split_ifs <;> omega

theorem safe_text (h : offset < n) (hpos : 1 < n) (hlength : (byteAt memory 1).toNat ≤ n)
    (name : String) : Safe memory n (Column.text n name offset).read := by
  have hstr := safe_dmiString hn (Nat.add_sub_cancel' hlength).le (byteAt memory offset)
  refine (within_byte hpos hn).safe_bind ?_
  refine (within_byte h hn).safe_bind ?_
  exact safe_bind hstr fun str => safe_pure _

end Columns

/-! ### Rows -/

section Rows

variable {memory : List UInt8} {n : ℕ}

theorem safe_genRow {columns : List Column} (h : ∀ column ∈ columns, Safe memory n column.read) :
    Safe memory n (genRow columns) := by
  induction columns with
  | nil => exact safe_pure []
  | cons column columns ih =>
      obtain ⟨hcolumn, hcolumns⟩ := List.forall_mem_cons.1 h
      exact safe_bind (safe_traced hcolumn) fun _ =>
        safe_bind (ih hcolumns) fun _ => safe_pure _

/-- The columns are read only when the structure has room for them. -/
theorem safe_generate {type : UInt8} {maxOffset : ℕ} {columns : List Column}
    (hn : n ≤ memory.length) (hpos : 0 < n)
    (h : maxOffset ≤ n → ∀ column ∈ columns, Safe memory n column.read) :
    Safe memory n (generate type maxOffset columns n) := by
  refine (within_byte hpos hn).safe_bind ?_
  split_ifs with hskip
  · exact safe_pure []
  · have hroom : maxOffset ≤ n := Nat.le_of_not_lt fun hshort => hskip (.inr hshort)
    exact safe_bind (safe_genRow (h hroom)) fun row => safe_pure [row]

theorem safe_oemStringRows (handle : Field) {textAddrs maxlen : ℕ} (hn : n ≤ memory.length)
    (h : textAddrs + maxlen ≤ n) (strings i : ℕ) :
    Safe memory n (oemStringRows handle textAddrs maxlen strings i) := by
  induction strings generalizing i with
  | zero => exact safe_pure []
  | succ strings ih =>
      exact safe_bind (safe_traced (safe_dmiString hn h (UInt8.ofNat i))) fun _ =>
        safe_bind (ih (i + 1)) fun _ => safe_pure _

end Rows

/-! ### Generators -/

section Generators

variable {memory : List UInt8} {n : ℕ} (hn : n ≤ memory.length)

include hn

theorem safe_memoryDeviceColumns (hroom : 0x26 + 4 ≤ n)
    (hlength : (byteAt memory 1).toNat ≤ n) :
    ∀ column ∈ memoryDeviceColumns n, Safe memory n column.read := by
  have htext : ∀ offset < n, ∀ name, Safe memory n (Column.text n name offset).read :=
    fun offset hoffset name => safe_text hn hoffset (by omega) hlength name
  simp only [memoryDeviceColumns, List.forall_mem_cons, List.not_mem_nil, false_imp_iff,
    implies_true, and_true]
  exact ⟨safe_word hn (by omega) _ _, safe_word hn (by omega) _ _,
    safe_byteNumber hn (by omega) _ _, safe_word hn (by omega) _ _,
    safe_word hn (by omega) _ _, safe_size hn (by omega), safe_byteNumber hn (by omega) _ _,
    htext _ (by omega) _, htext _ (by omega) _, safe_byteNumber hn (by omega) _ _,
    safe_word hn (by omega) _ _, safe_word hn (by omega) _ _, safe_word hn (by omega) _ _,
    htext _ (by omega) _, htext _ (by omega) _, htext _ (by omega) _, htext _ (by omega) _,
    safe_word hn (by omega) _ _, safe_word hn (by omega) _ _, safe_word hn (by omega) _ _⟩

theorem safe_memoryArrayColumns (hroom : 0x0F + 8 ≤ n) :
    ∀ column ∈ memoryArrayColumns, Safe memory n column.read := by
  simp only [memoryArrayColumns, List.forall_mem_cons, List.not_mem_nil, false_imp_iff,
    implies_true, and_true]
  exact ⟨safe_word hn (by omega) _ _, safe_byteNumber hn (by omega) _ _,
    safe_byteNumber hn (by omega) _ _, safe_byteNumber hn (by omega) _ _,
    safe_capacity hn (by omega), safe_word hn (by omega) _ _, safe_word hn (by omega) _ _⟩

theorem safe_memoryArrayMappedAddressColumns (hroom : 0x17 + 8 ≤ n) :
    ∀ column ∈ memoryArrayMappedAddressColumns, Safe memory n column.read := by
  simp only [memoryArrayMappedAddressColumns, List.forall_mem_cons, List.not_mem_nil,
    false_imp_iff, implies_true, and_true]
  exact ⟨safe_word hn (by omega) _ _, safe_address hn (by omega) (by omega) (by omega),
    safe_address hn (by omega) (by omega) (by omega), safe_word hn (by omega) _ _,
    safe_byteNumber hn (by omega) _ _⟩

theorem safe_memoryErrorInfoColumns (hroom : 0x13 + 4 ≤ n) :
    ∀ column ∈ memoryErrorInfoColumns, Safe memory n column.read := by
  simp only [memoryErrorInfoColumns, List.forall_mem_cons, List.not_mem_nil, false_imp_iff,
    implies_true, and_true]
  exact ⟨safe_word hn (by omega) _ _, safe_byteNumber hn (by omega) _ _,
    safe_byteNumber hn (by omega) _ _, safe_byteNumber hn (by omega) _ _,
    safe_dword hn (by omega) _ _, safe_dword hn (by omega) _ _, safe_dword hn (by omega) _ _,
    safe_dword hn (by omega) _ _⟩

theorem safe_memoryDeviceMappedAddressColumns (hroom : 0x1B + 8 ≤ n) :
    ∀ column ∈ memoryDeviceMappedAddressColumns, Safe memory n column.read := by
  simp only [memoryDeviceMappedAddressColumns, List.forall_mem_cons, List.not_mem_nil,
    false_imp_iff, implies_true, and_true]
  exact ⟨safe_word hn (by omega) _ _, safe_address hn (by omega) (by omega) (by omega),
    safe_address hn (by omega) (by omega) (by omega), safe_word hn (by omega) _ _,
    safe_byteNumber hn (by omega) _ _, safe_byteNumber hn (by omega) _ _,
    safe_byteNumber hn (by omega) _ _⟩

theorem safe_genSMBIOSOEMStrings (hpos : 0 < n) (hlength : (byteAt memory 1).toNat ≤ n) :
    Safe memory n (genSMBIOSOEMStrings n) := by
  refine (within_byte hpos hn).safe_bind ?_
  split_ifs with hskip
  · exact safe_pure []
  · have hroom : 0x04 + 1 ≤ n := Nat.le_of_not_lt fun hshort => hskip (.inr hshort)
    have hhandle := (@extent_dmiToWord memory 0x02 (by omega)).within (by omega : 0x02 + 2 ≤ n)
    refine safe_bind (safe_traced hhandle.safe) fun handle => ?_
    refine (within_byte (by omega) hn).safe_bind ?_
    refine (within_byte (by omega) hn).safe_bind ?_
    exact safe_oemStringRows _ hn (Nat.add_sub_cancel' hlength).le _ 1

end Generators

/-- The generators that run on the structures of a table. -/
def generators : List (ℕ → Reads (List Row)) :=
  [genSMBIOSMemoryDevices, genSMBIOSMemoryArrays, genSMBIOSMemoryArrayMappedAddresses,
   genSMBIOSMemoryErrorInfo, genSMBIOSMemoryDeviceMappedAddresses, genSMBIOSOEMStrings]

theorem safe_of_mem_generators {memory : List UInt8} {n : ℕ} (hn : n ≤ memory.length)
    (hpos : 0 < n) (hlength : (byteAt memory 1).toNat ≤ n) :
    ∀ gen ∈ generators, Safe memory n (gen n) := by
  simp only [generators, List.forall_mem_cons, List.not_mem_nil, false_imp_iff, implies_true,
    and_true]
  exact ⟨safe_generate hn hpos fun hroom => safe_memoryDeviceColumns hn hroom hlength,
    safe_generate hn hpos (safe_memoryArrayColumns hn),
    safe_generate hn hpos (safe_memoryArrayMappedAddressColumns hn),
    safe_generate hn hpos (safe_memoryErrorInfoColumns hn),
    safe_generate hn hpos (safe_memoryDeviceMappedAddressColumns hn),
    safe_genSMBIOSOEMStrings hn hpos hlength⟩

/-- A range of consecutive calls is not empty and lies in the table. -/
theorem Consecutive.of_mem {tables_end table : ℕ} {calls : List Call}
    (h : Consecutive tables_end table calls) {call : Call} (hcall : call ∈ calls) :
    0 < call.size ∧ call.address + call.size ≤ tables_end := by
  induction calls generalizing table with
  | nil => cases hcall
  | cons first calls ih =>
      obtain ⟨-, hpos, hend, hrest⟩ := h
      rcases List.mem_cons.1 hcall with rfl | hcall
      · exact ⟨hpos, hend⟩
      · exact ih hrest hcall

/-- Whatever the table has, the walk and the generators read it only, each generator within the
structure it is called for. -/
theorem tables_within_structures (data : List UInt8) :
    ∃ calls, Within data data.length (tables data.length) (some calls) ∧
      Consecutive data.length 0 calls ∧
      ∀ call ∈ calls, call.InOrder data ∧
        ∀ gen ∈ generators, Safe (data.drop call.address) call.size (gen call.size) := by
  obtain ⟨calls, hwithin, hconsecutive, horder⟩ :=
    @exists_within_walk data (data.length + 1) 0 0 (Nat.zero_le _) (by omega)
  refine ⟨calls, hwithin, hconsecutive, fun call hcall => ⟨horder call hcall, ?_⟩⟩
  obtain ⟨hpos, hend⟩ := hconsecutive.of_mem hcall
  refine safe_of_mem_generators ?_ hpos ?_
  · rw [List.length_drop]
    omega
  · rw [byteAt_drop]
    exact (horder call hcall).2

end Osquery.Smbios
