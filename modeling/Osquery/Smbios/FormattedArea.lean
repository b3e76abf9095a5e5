import Osquery.Smbios.Safety

/-!
# Fields of the formatted area

The generators compare the size of a whole structure with the offsets that they read, although
the fields lie in the formatted area, and the length of it is in the header. In a structure of an
older version the text area begins before the newer fields, and its characters are decoded as
numbers. Which lengths cover the fields that are reported depends on the values that are read.
-/

namespace Osquery.Smbios

open Foundation.ByteReads

/-- What a generator is called for: a structure with a size, which is no less than the length of
its formatted area. -/
structure Found where
  memory : List UInt8
  size : ℕ
  size_le : size ≤ memory.length
  length_le : (byteAt memory 1).toNat ≤ size

/-- The length byte. -/
def Found.length (s : Found) : ℕ := (byteAt s.memory 1).toNat

/-- The generators are called for such structures. -/
theorem exists_found_of_mem {data : List UInt8} {calls : List Call}
    (h : Returns data (tables data.length) (some calls)) {call : Call} (hcall : call ∈ calls) :
    ∃ s : Found, s.memory = data.drop call.address ∧ s.size = call.size := by
  obtain ⟨calls', hwithin, hconsecutive, horder⟩ :=
    @exists_within_walk data (data.length + 1) 0 0 (Nat.zero_le _) (by omega)
  obtain rfl : calls' = calls := Option.some.inj (hwithin.returns.unique h)
  obtain ⟨-, hend⟩ := hconsecutive.of_mem hcall
  have hsize : call.size ≤ (data.drop call.address).length := by
    rw [List.length_drop]
    omega
  have hlength : (byteAt (data.drop call.address) 1).toNat ≤ call.size := by
    rw [byteAt_drop]
    exact (horder call hcall).2
  exact ⟨⟨_, _, hsize, hlength⟩, rfl, rfl⟩

/-- Every number or name that the rows report was read in the formatted area. -/
def ReadsFormatted (s : Found) (gen : ℕ → Reads (List Row)) : Prop :=
  ∀ rows, Returns s.memory (gen s.size) rows → ∀ row ∈ rows, ∀ field ∈ row,
    (∃ text, field.value = .decoded text) → ∀ offset ∈ field.decodedFrom, offset < s.length

/-- The generators of the rows about memory. -/
def memoryGenerators : List (ℕ → Reads (List Row)) :=
  [genSMBIOSMemoryDevices, genSMBIOSMemoryArrays, genSMBIOSMemoryArrayMappedAddresses,
   genSMBIOSMemoryErrorInfo, genSMBIOSMemoryDeviceMappedAddresses]

/-! ### Which lengths cover the fields -/

section Conditions

variable (memory : List UInt8) (length : ℕ)

/-- The details of the type are always reported, the fields behind them by their values. -/
structure MemoryDeviceCovered : Prop where
  details : 0x15 ≤ length
  size : wordAt memory 0x0C = 0x7FFF → 0x20 ≤ length
  max_speed : wordAt memory 0x15 ∉ [0x0000, 0xFFFF] → 0x17 ≤ length
  configured_clock_speed : wordAt memory 0x20 ∉ [0x0000, 0xFFFF] → 0x22 ≤ length
  min_voltage : wordAt memory 0x22 ≠ 0 → 0x24 ≤ length
  max_voltage : wordAt memory 0x24 ≠ 0 → 0x26 ≤ length
  configured_voltage : wordAt memory 0x26 ≠ 0 → 0x28 ≤ length

structure MemoryArrayCovered : Prop where
  number_memory_devices : 0x0F ≤ length
  max_capacity : 0x80000000 ≤ dwordAt memory 0x07 → 0x17 ≤ length

structure MemoryArrayMappedAddressCovered : Prop where
  partition_width : 0x0F ≤ length
  ending_address : dwordAt memory 0x04 = 0xFFFFFFFF → 0x1F ≤ length

structure MemoryErrorInfoCovered : Prop where
  handle : 0x04 ≤ length
  error_type : (named kSMBIOSMemoryErrorTypeTable (byteAt memory 0x04).toNat).isSome →
    0x05 ≤ length
  error_granularity :
    (named kSMBIOSMemoryErrorGranularityTable (byteAt memory 0x05).toNat).isSome → 0x06 ≤ length
  error_operation : (named kSMBIOSMemoryErrorOperationTable (byteAt memory 0x06).toNat).isSome →
    0x07 ≤ length
  vendor_syndrome : dwordAt memory 0x07 ≠ 0x00000000 → 0x0B ≤ length
  memory_array_error_address : dwordAt memory 0x0B ≠ 0x80000000 → 0x0F ≤ length
  device_error_address : dwordAt memory 0x0F ≠ 0x80000000 → 0x13 ≤ length
  error_resolution : dwordAt memory 0x13 ≠ 0x80000000 → 0x17 ≤ length

structure MemoryDeviceMappedAddressCovered : Prop where
  interleave_data_depth : 0x13 ≤ length
  ending_address : dwordAt memory 0x04 = 0xFFFFFFFF → 0x23 ≤ length

end Conditions

/-- The structure has a row of the generator with the type and the least size. -/
def Found.Reported (s : Found) (type : UInt8) (maxOffset : ℕ) : Prop :=
  byteAt s.memory 0 = type ∧ maxOffset ≤ s.size

/-- A structure that is reported is long enough for the fields that are. -/
structure Covered (s : Found) : Prop where
  device : s.Reported kSMBIOSTypeMemoryDevice (0x26 + 4) → MemoryDeviceCovered s.memory s.length
  array : s.Reported kSMBIOSTypeMemoryArray (0x0F + 8) → MemoryArrayCovered s.memory s.length
  arrayAddress : s.Reported kSMBIOSTypeMemoryArrayMappedAddress (0x17 + 8) →
    MemoryArrayMappedAddressCovered s.memory s.length
  error : s.Reported kSMBIOSTypeMemoryErrorInformation (0x13 + 4) →
    MemoryErrorInfoCovered s.memory s.length
  deviceAddress : s.Reported kSMBIOSTypeMemoryDeviceMappedAddress (0x1B + 8) →
    MemoryDeviceMappedAddressCovered s.memory s.length

/-! ### Rows and columns -/

/-- A column that is set to a number or a name is read before the length. -/
def Column.Covered (memory : List UInt8) (length : ℕ) (column : Column) : Prop :=
  ∀ text read, column.read memory = some (some (.decoded text), read) →
    ∀ offset ∈ read, offset < length

section Rows

variable {memory : List UInt8} {n : ℕ}

theorem mem_genRow_iff {columns : List Column} {row : Row}
    (h : Returns memory (genRow columns) row) {field : Field} :
    field ∈ row ↔ ∃ column ∈ columns, column.name = field.name ∧
      column.read memory = some (some field.value, field.decodedFrom) := by
  induction columns generalizing row with
  | nil =>
      obtain rfl := returns_pure_iff.1 h
      simp
  | cons column columns ih =>
      obtain ⟨⟨value, read⟩, hvalue, hrest⟩ := returns_bind_iff.1 h
      obtain ⟨rest, hrow, hpure⟩ := returns_bind_iff.1 hrest
      obtain rfl := returns_pure_iff.1 hpure
      have hread := returns_traced_iff.1 hvalue
      rw [List.mem_append, ih hrow, List.exists_mem_cons_iff]
      refine or_congr_left ?_
      rw [hread, Option.mem_toList, Option.map_eq_some_iff]
      constructor
      · rintro ⟨v, hv, rfl⟩
        obtain rfl : value = some v := hv
        exact ⟨rfl, rfl⟩
      · rintro ⟨hname, hsome⟩
        obtain ⟨hv, hr⟩ := Prod.mk.inj (Option.some.inj hsome)
        exact ⟨field.value, hv, by rw [hname, hr]⟩

variable {s : Found} {type : UInt8} {maxOffset : ℕ} {columns : List Column}

/-- A generator reports its columns from the formatted area when the length covers them. -/
theorem readsFormatted_generate_iff {gen : ℕ → Reads (List Row)} (hpos : 0 < maxOffset)
    (hgen : gen s.size = generate type maxOffset columns s.size)
    (hsafe : maxOffset ≤ s.size → ∀ column ∈ columns, Safe s.memory s.size column.read)
    {condition : Prop} (hcondition : maxOffset ≤ s.memory.length →
      ((∀ column ∈ columns, column.Covered s.memory s.length) ↔ condition)) :
    ReadsFormatted s gen ↔ (s.Reported type maxOffset → condition) := by
  rw [ReadsFormatted, hgen]
  constructor
  · rintro hformatted ⟨htype, hroom⟩
    refine (hcondition (hroom.trans s.size_le)).1 fun column hcolumn text read hread => ?_
    obtain ⟨row, hrow⟩ := safe_genRow (hsafe hroom)
    have hfirst : Returns s.memory (byte 0) (byteAt s.memory 0) :=
      (within_byte (Nat.lt_of_lt_of_le hpos hroom) s.size_le).returns
    have hrows : Returns s.memory (generate type maxOffset columns s.size) [row] := by
      refine returns_bind_iff.2 ⟨_, hfirst, ?_⟩
      rw [if_neg (by simp [htype, Nat.not_lt.2 hroom])]
      exact returns_bind_iff.2 ⟨row, hrow.returns, returns_pure_iff.2 rfl⟩
    have hfield := (mem_genRow_iff hrow.returns).2
      ⟨column, hcolumn, @rfl _ (Field.mk column.name (.decoded text) read).name, hread⟩
    exact hformatted _ hrows row (List.mem_singleton_self row) _ hfield ⟨text, rfl⟩
  · intro hcovered rows hrows row hrow field hfield hdecoded
    obtain ⟨first, hfirst, hrest⟩ := returns_bind_iff.1 hrows
    obtain rfl := eq_byteAt_of_returns hfirst
    split_ifs at hrest with hskip
    · obtain rfl := returns_pure_iff.1 hrest
      cases hrow
    · obtain ⟨row', hrow', hpure⟩ := returns_bind_iff.1 hrest
      obtain rfl := returns_pure_iff.1 hpure
      obtain rfl := List.mem_singleton.1 hrow
      obtain ⟨column, hcolumn, -, hread⟩ := (mem_genRow_iff hrow').1 hfield
      obtain ⟨htype, hroom⟩ := not_or.1 hskip
      obtain ⟨text, htext⟩ := hdecoded
      rw [htext] at hread
      have hsize : maxOffset ≤ s.size := Nat.le_of_not_lt hroom
      have hcolumns := (hcondition (hsize.trans s.size_le)).2 (hcovered ⟨not_not.1 htype, hsize⟩)
      exact hcolumns column hcolumn text _ hread

end Rows

/-! ### Which lengths cover the columns -/

section Columns

variable {memory : List UInt8} {length offset : ℕ}

theorem covered_of_extent {column : Column} {value : Option Value} {stop : ℕ}
    (h : Extent memory column.read value stop) :
    column.Covered memory length ↔ ((∃ text, value = some (.decoded text)) → stop ≤ length) := by
  obtain ⟨read, hread, hstop⟩ := h
  rw [← hstop]
  constructor
  · rintro hcovered ⟨text, rfl⟩
    exact hcovered text read hread
  · intro hinside text read' hread'
    rw [hread] at hread'
    obtain ⟨hvalue, rfl⟩ := Prod.mk.inj (Option.some.inj hread')
    exact hinside ⟨text, hvalue⟩

theorem covered_number_iff {p : Reads ℕ} {num stop : ℕ} (h : Extent memory p num stop)
    (name : String) (shown : ℕ → Option String) :
    (Column.number name p shown).Covered memory length ↔
      ((shown num).isSome → stop ≤ length) := by
  rw [covered_of_extent (extent_number h name shown)]
  refine imp_congr_left ?_
  cases shown num with
  | none => simp
  | some text => simp

@[simp] theorem covered_byteNumber_iff (h : offset < memory.length) (name : String)
    (shown : ℕ → Option String) :
    (Column.number name (byteNumber offset) shown).Covered memory length ↔
      ((shown (byteAt memory offset).toNat).isSome → offset + 1 ≤ length) :=
  covered_number_iff (extent_byteNumber h) name shown

@[simp] theorem covered_word_iff (h : offset + 2 ≤ memory.length) (name : String)
    (shown : ℕ → Option String) :
    (Column.number name (dmiToWord offset) shown).Covered memory length ↔
      ((shown (wordAt memory offset)).isSome → offset + 2 ≤ length) :=
  covered_number_iff (extent_dmiToWord h) name shown

@[simp] theorem covered_dword_iff (h : offset + 4 ≤ memory.length) (name : String)
    (shown : ℕ → Option String) :
    (Column.number name (dmiToDWord offset) shown).Covered memory length ↔
      ((shown (dwordAt memory offset)).isSome → offset + 4 ≤ length) :=
  covered_number_iff (extent_dmiToDWord h) name shown

/-- The strings are no numbers. -/
@[simp] theorem covered_text (size : ℕ) (name : String) (offset : ℕ) :
    (Column.text size name offset).Covered memory length := by
  intro text read hread
  obtain ⟨size', -, hsize⟩ := returns_bind_iff.1 ⟨read, hread⟩
  obtain ⟨index, -, hindex⟩ := returns_bind_iff.1 hsize
  obtain ⟨str, -, hpure⟩ := returns_bind_iff.1 hindex
  cases returns_pure_iff.1 hpure

@[simp] theorem covered_size_iff (h : 0x20 ≤ memory.length) (name : String) :
    Column.Covered memory length ⟨name, dmiToWord 0x0C >>= sizeFor⟩ ↔
      (wordAt memory 0x0C ≠ 0xFFFF → 0x0E ≤ length) ∧
        (wordAt memory 0x0C = 0x7FFF → 0x20 ≤ length) := by
  obtain ⟨value, hsize, hshown⟩ := exists_extent_sizeFor h (wordAt memory 0x0C)
  have hbits := @extent_dmiToWord memory 0x0C (by omega)
  have hextent : Extent memory (Column.mk name (dmiToWord 0x0C >>= sizeFor)).read _ _ :=
    extent_bind hbits hsize
  rw [covered_of_extent hextent, Nat.max_le, hshown]
  split_ifs <;> omega

@[simp] theorem covered_capacity_iff (h : 0x17 ≤ memory.length) (name : String) :
    Column.Covered memory length ⟨name, dmiToDWord 0x07 >>= capacityFor⟩ ↔
      0x0B ≤ length ∧ (0x80000000 ≤ dwordAt memory 0x07 → 0x17 ≤ length) := by
  obtain ⟨text, hcapacity⟩ := exists_extent_capacityFor h (dwordAt memory 0x07)
  have hcap := @extent_dmiToDWord memory 0x07 (by omega)
  have hextent : Extent memory (Column.mk name (dmiToDWord 0x07 >>= capacityFor)).read _ _ :=
    extent_bind hcap hcapacity
  rw [covered_of_extent hextent, Nat.max_le, imp_iff_right ⟨text, rfl⟩]
  split_ifs <;> omega

@[simp] theorem covered_address_iff {extended : ℕ} (h : offset + 4 ≤ memory.length)
    (hextended : extended + 8 ≤ memory.length) (hroom : 8 ≤ memory.length) (name : String) :
    Column.Covered memory length ⟨name, dmiToDWord 0x04 >>= addressFor offset extended⟩ ↔
      8 ≤ length ∧
        (if dwordAt memory 0x04 = 0xFFFFFFFF then extended + 8 else offset + 4) ≤ length := by
  obtain ⟨text, haddress⟩ := exists_extent_addressFor h hextended (dwordAt memory 0x04)
  have haddr := @extent_dmiToDWord memory 0x04 hroom
  have hextent : Extent memory
      (Column.mk name (dmiToDWord 0x04 >>= addressFor offset extended)).read _ _ :=
    extent_bind haddr haddress
  rw [covered_of_extent hextent, Nat.max_le, imp_iff_right ⟨text, rfl⟩]

end Columns

/-! ### Generators -/

@[simp] theorem isSome_numberUnless {excluded : List ℕ} {num : ℕ} :
    (numberUnless excluded num).isSome ↔ num ∉ excluded := by
  rw [numberUnless]
  split_ifs with h <;> simp [h]

@[simp] theorem isSome_hexUnless {excluded : List ℕ} {width num : ℕ} :
    (hexUnless excluded width num).isSome ↔ num ∉ excluded := by
  rw [hexUnless]
  split_ifs with h <;> simp [h]

section Generators

variable {memory : List UInt8} {length : ℕ}

theorem memoryDevice_covered_iff (h : 0x26 + 4 ≤ memory.length) (size : ℕ) :
    (∀ column ∈ memoryDeviceColumns size, column.Covered memory length) ↔
      MemoryDeviceCovered memory length := by
  simp (disch := omega) [memoryDeviceColumns]
  constructor
  · rintro ⟨-, -, -, -, -, hsize, -, -, hdetails, hspeed, hclock, hmin, hmax, hvoltage⟩
    exact ⟨hdetails, hsize.2, by simpa using hspeed, by simpa using hclock, by simpa using hmin,
      by simpa using hmax, by simpa using hvoltage⟩
  · rintro ⟨hdetails, hsize, hspeed, hclock, hmin, hmax, hvoltage⟩
    -- The details lie behind every field of the oldest layout.
    refine ⟨?_, ?_, ?_, ?_, ?_, ⟨?_, hsize⟩, ?_, ?_, hdetails, by simpa using hspeed,
      by simpa using hclock, by simpa using hmin, by simpa using hmax, by simpa using hvoltage⟩
    all_goals omega

theorem memoryArray_covered_iff (h : 0x0F + 8 ≤ memory.length) :
    (∀ column ∈ memoryArrayColumns, column.Covered memory length) ↔
      MemoryArrayCovered memory length := by
  simp (disch := omega) [memoryArrayColumns]
  constructor
  · rintro ⟨-, -, -, -, hcapacity, -, hdevices⟩
    exact ⟨hdevices, hcapacity.2⟩
  · rintro ⟨hdevices, hcapacity⟩
    refine ⟨?_, ?_, ?_, ?_, ⟨?_, hcapacity⟩, ?_, hdevices⟩
    all_goals omega

theorem memoryArrayMappedAddress_covered_iff (h : 0x17 + 8 ≤ memory.length) :
    (∀ column ∈ memoryArrayMappedAddressColumns, column.Covered memory length) ↔
      MemoryArrayMappedAddressCovered memory length := by
  simp (disch := omega) [memoryArrayMappedAddressColumns]
  constructor
  · rintro ⟨-, -, ⟨-, hending⟩, -, hwidth⟩
    exact ⟨hwidth, fun hlarge => by rwa [if_pos hlarge] at hending⟩
  · rintro ⟨hwidth, hending⟩
    refine ⟨by omega, ⟨by omega, ?_⟩, ⟨by omega, ?_⟩, by omega, hwidth⟩
    all_goals split_ifs <;> omega

theorem memoryErrorInfo_covered_iff (h : 0x13 + 4 ≤ memory.length) :
    (∀ column ∈ memoryErrorInfoColumns, column.Covered memory length) ↔
      MemoryErrorInfoCovered memory length := by
  simp (disch := omega) [memoryErrorInfoColumns]
  constructor
  · rintro ⟨hhandle, htype, hgranularity, hoperation, hsyndrome, harray, hdevice, hresolution⟩
    exact ⟨hhandle, htype, hgranularity, hoperation, by simpa using hsyndrome,
      by simpa using harray, by simpa using hdevice, by simpa using hresolution⟩
  · rintro ⟨hhandle, htype, hgranularity, hoperation, hsyndrome, harray, hdevice, hresolution⟩
    exact ⟨hhandle, htype, hgranularity, hoperation, by simpa using hsyndrome,
      by simpa using harray, by simpa using hdevice, by simpa using hresolution⟩

theorem memoryDeviceMappedAddress_covered_iff (h : 0x1B + 8 ≤ memory.length) :
    (∀ column ∈ memoryDeviceMappedAddressColumns, column.Covered memory length) ↔
      MemoryDeviceMappedAddressCovered memory length := by
  simp (disch := omega) [memoryDeviceMappedAddressColumns]
  constructor
  · rintro ⟨-, -, ⟨-, hending⟩, -, -, -, hdepth⟩
    exact ⟨hdepth, fun hlarge => by rwa [if_pos hlarge] at hending⟩
  · rintro ⟨hdepth, hending⟩
    refine ⟨by omega, ⟨by omega, ?_⟩, ⟨by omega, ?_⟩, by omega, by omega, by omega, hdepth⟩
    all_goals split_ifs <;> omega

end Generators

section Found

variable (s : Found)

theorem readsFormatted_memoryDevices_iff :
    ReadsFormatted s genSMBIOSMemoryDevices ↔
      (s.Reported kSMBIOSTypeMemoryDevice (0x26 + 4) →
        MemoryDeviceCovered s.memory s.length) := by
  have hgen : genSMBIOSMemoryDevices s.size =
      generate kSMBIOSTypeMemoryDevice (0x26 + 4) (memoryDeviceColumns s.size) s.size := rfl
  exact readsFormatted_generate_iff (by decide) hgen
    (fun hroom => safe_memoryDeviceColumns s.size_le hroom s.length_le)
    (fun hroom => memoryDevice_covered_iff hroom s.size)

theorem readsFormatted_memoryArrays_iff :
    ReadsFormatted s genSMBIOSMemoryArrays ↔
      (s.Reported kSMBIOSTypeMemoryArray (0x0F + 8) → MemoryArrayCovered s.memory s.length) :=
  readsFormatted_generate_iff (by decide) rfl
    (safe_memoryArrayColumns s.size_le) memoryArray_covered_iff

theorem readsFormatted_memoryArrayMappedAddresses_iff :
    ReadsFormatted s genSMBIOSMemoryArrayMappedAddresses ↔
      (s.Reported kSMBIOSTypeMemoryArrayMappedAddress (0x17 + 8) →
        MemoryArrayMappedAddressCovered s.memory s.length) :=
  readsFormatted_generate_iff (by decide) rfl
    (safe_memoryArrayMappedAddressColumns s.size_le) memoryArrayMappedAddress_covered_iff

theorem readsFormatted_memoryErrorInfo_iff :
    ReadsFormatted s genSMBIOSMemoryErrorInfo ↔
      (s.Reported kSMBIOSTypeMemoryErrorInformation (0x13 + 4) →
        MemoryErrorInfoCovered s.memory s.length) :=
  readsFormatted_generate_iff (by decide) rfl
    (safe_memoryErrorInfoColumns s.size_le) memoryErrorInfo_covered_iff

theorem readsFormatted_memoryDeviceMappedAddresses_iff :
    ReadsFormatted s genSMBIOSMemoryDeviceMappedAddresses ↔
      (s.Reported kSMBIOSTypeMemoryDeviceMappedAddress (0x1B + 8) →
        MemoryDeviceMappedAddressCovered s.memory s.length) :=
  readsFormatted_generate_iff (by decide) rfl
    (safe_memoryDeviceMappedAddressColumns s.size_le) memoryDeviceMappedAddress_covered_iff

end Found

/-- The fields lie in the formatted areas of exactly the structures that are long enough for
them. -/
theorem memoryFields_formatted_iff (s : Found) :
    (∀ gen ∈ memoryGenerators, ReadsFormatted s gen) ↔ Covered s := by
  simp only [memoryGenerators, List.forall_mem_cons, List.not_mem_nil, false_imp_iff,
    implies_true, and_true, readsFormatted_memoryDevices_iff, readsFormatted_memoryArrays_iff,
    readsFormatted_memoryArrayMappedAddresses_iff, readsFormatted_memoryErrorInfo_iff,
    readsFormatted_memoryDeviceMappedAddresses_iff]
  constructor
  · rintro ⟨hdevice, harray, harrayAddress, herror, hdeviceAddress⟩
    exact ⟨hdevice, harray, harrayAddress, herror, hdeviceAddress⟩
  · rintro ⟨hdevice, harray, harrayAddress, herror, hdeviceAddress⟩
    exact ⟨hdevice, harray, harrayAddress, herror, hdeviceAddress⟩

/-- A memory device of the oldest version, with one string of nineteen characters. -/
def oldDevice : Found where
  memory := [17, 21, 0, 0] ++ List.replicate 17 0 ++ List.replicate 19 65 ++ [0, 0]
  size := 42
  size_le := by simp
  length_le := by decide

theorem oldDevice_speed_from_string :
    ¬ ∀ gen ∈ memoryGenerators, ReadsFormatted oldDevice gen := by
  intro h
  have hcovered := (readsFormatted_memoryDevices_iff oldDevice).1
    (h genSMBIOSMemoryDevices List.mem_cons_self)
  have hspeed := (hcovered ⟨rfl, le_rfl⟩).max_speed (by decide)
  exact absurd hspeed (by decide)

end Osquery.Smbios
