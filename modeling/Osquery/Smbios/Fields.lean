import Osquery.Smbios.Parser
import Osquery.Foundation.Numeral

/-!
# The fields of SMBIOS structures

The row generators read the fields of a structure at fixed offsets. A generator has a type and
an offset behind the fields it knows, and leaves out structures that are shorter, with the bytes
of their text areas counted.

## Implementation notes

Every value of a row is kept with the offsets that it was read from. A generator runs on the bytes
from the address of a structure on, and gives the rows that it adds to the results. The
structures of a walk are at least as long as their headers say, so the length of a text area is a
difference of natural numbers.
-/

namespace Osquery.Smbios

open Foundation.ByteReads Foundation.Numeral

/-! ### Texts of numbers -/

abbrev LookupTable : Type := List (UInt8 × String)

def kSMBIOSMemoryFormFactorTable : LookupTable :=
  [(0x01, "Other"), (0x02, "Unknown"), (0x03, "SIMM"), (0x04, "SIP"), (0x05, "Chip"),
   (0x06, "DIP"), (0x07, "ZIP"), (0x08, "Proprietary Card"), (0x09, "DIMM"), (0x0A, "TSOP"),
   (0x0B, "Row of chips"), (0x0C, "RIMM"), (0x0D, "SODIMM"), (0x0E, "SRIMM"), (0x0F, "FB-DIMM")]

def kSMBIOSMemoryDetailsTable : LookupTable :=
  [(0, "Reserved"), (1, "Other"), (2, "Unknown"), (3, "Fast-paged"), (4, "Static column"),
   (5, "Pseudo-static"), (6, "RAMBUS"), (7, "Synchronous"), (8, "CMOS"), (9, "EDO"),
   (10, "Window DRAM"), (11, "Cache DRAM"), (12, "Non-volatile"), (13, "Registered (Buffered)"),
   (14, "Unbuffered (Unregistered)"), (15, "LRDIMM")]

def kSMBIOSMemoryTypeTable : LookupTable :=
  [(0x01, "Other"), (0x02, "Unknown"), (0x03, "DRAM"), (0x04, "EDRAM"), (0x05, "VRAM"),
   (0x06, "SRAM"), (0x07, "RAM"), (0x08, "ROM"), (0x09, "FLASH"), (0x0A, "EEPROM"),
   (0x0B, "FEPROM"), (0x0C, "EPROM"), (0x0D, "CDRAM"), (0x0E, "3DRAM"), (0x0F, "SDRAM"),
   (0x10, "SGRAM"), (0x11, "RDRAM"), (0x12, "DDR"), (0x13, "DDR2"), (0x14, "DDR2 FB-DIMM"),
   (0x15, "RESERVED"), (0x16, "RESERVED"), (0x17, "RESERVED"), (0x18, "DDR3"), (0x19, "FBD2"),
   (0x1A, "DDR4"), (0x1B, "LPDDR"), (0x1C, "LPDDR2"), (0x1D, "LPDDR3"), (0x1E, "LPDDR4")]

def kSMBIOSMemoryArrayLocationTable : LookupTable :=
  [(0x01, "Other"), (0x02, "Unknown"), (0x03, "System board or motherboard"),
   (0x04, "ISA add-on card"), (0x05, "EISA add-on card"), (0x06, "PCI add-on card"),
   (0x07, "MCA add-on card"), (0x08, "PCMCIA add-on card"), (0x09, "Proprietary add-on card"),
   (0x0A, "NuBus"), (0xA0, "PC-98/C20 add-on card"), (0xA1, "PC-98/C24 add-on card"),
   (0xA2, "PC-98/E add-on card"), (0xA3, "PC-98/Local bus add-on card")]

def kSMBIOSMemoryArrayUseTable : LookupTable :=
  [(0x01, "Other"), (0x02, "Unknown"), (0x03, "System memory"), (0x04, "Video memory"),
   (0x05, "Flash memory"), (0x06, "Non-volatile RAM"), (0x07, "Cache memory")]

def kSMBIOSMemoryArrayErrorCorrectionTypesTable : LookupTable :=
  [(0x01, "Other"), (0x02, "Unknown"), (0x03, "none"), (0x04, "Parity"),
   (0x05, "Single-bit ECC"), (0x06, "Multi-bit ECC"), (0x07, "CRC")]

def kSMBIOSMemoryErrorTypeTable : LookupTable :=
  [(0x01, "Other"), (0x02, "Unknown"), (0x03, "OK"), (0x04, "Bad read"), (0x05, "Parity error"),
   (0x06, "Single-bit error"), (0x07, "Double-bit error"), (0x08, "Multi-bit error"),
   (0x09, "Nibble error"), (0x0A, "Checksum error"), (0x0B, "CRC error"),
   (0x0C, "Corrected single-bit error"), (0x0D, "Corrected error"),
   (0x0E, "Uncorrectable error")]

def kSMBIOSMemoryErrorGranularityTable : LookupTable :=
  [(0x01, "Other"), (0x02, "Unknown"), (0x03, "Device level"), (0x04, "Memory partition level")]

def kSMBIOSMemoryErrorOperationTable : LookupTable :=
  [(0x01, "Other"), (0x02, "Unknown"), (0x03, "Read"), (0x04, "Write"), (0x05, "Partial write")]

def kSMBIOSTypeOEMStrings : UInt8 := 11
def kSMBIOSTypeMemoryArray : UInt8 := 16
def kSMBIOSTypeMemoryDevice : UInt8 := 17
def kSMBIOSTypeMemoryErrorInformation : UInt8 := 18
def kSMBIOSTypeMemoryArrayMappedAddress : UInt8 := 19
def kSMBIOSTypeMemoryDeviceMappedAddress : UInt8 := 20

def toHexStr (num width : ℕ) : String :=
  "0x" ++ String.ofList ((Nat.toDigits 16 num).leftpad width '0')

/-- The names of the bits that are set; the table has a name for every number below its size. -/
def dmiBitFieldToStr (bitField : ℕ) (table : LookupTable) : String :=
  let result := (List.range table.length).foldl (fun result i =>
    if bitField.testBit i then result ++ (table.lookup (UInt8.ofNat i)).getD "" ++ " "
    else result) ""
  String.ofList result.toList.dropLast

/-! ### Rows -/

inductive Value where
  /-- The text of a number, or its name. -/
  | decoded (text : String)
  /-- A string of the text area. -/
  | string (bytes : List UInt8)
  deriving DecidableEq, Repr

structure Field where
  name : String
  value : Value
  /-- The offsets of the bytes that were read for the value. -/
  decodedFrom : List ℕ
  deriving DecidableEq, Repr

abbrev Row : Type := List Field

/-- A field that a generator may set. -/
structure Column where
  name : String
  read : Reads (Option Value)

/-- The fields that are set, in their order. -/
def genRow : List Column → Reads Row
  | [] => pure []
  | column :: columns => do
      let field ← traced column.read
      let row ← genRow columns
      pure ((field.1.map (⟨column.name, ·, field.2⟩)).toList ++ row)

/-- A row for a structure of the type that is not too short. -/
def generate (type : UInt8) (maxOffset : ℕ) (columns : List Column) (size : ℕ) :
    Reads (List Row) := do
  if (← byte 0) ≠ type ∨ size < maxOffset then pure []
  else do
    let row ← genRow columns
    pure [row]

/-! ### Columns -/

/-- A column that shows a number, unless it stands for no value. -/
def Column.number (name : String) (read : Reads ℕ) (shown : ℕ → Option String) : Column where
  name := name
  read := do
    let num ← read
    pure ((shown num).map .decoded)

/-- `dmiString` with the index that a byte has. -/
def Column.text (size : ℕ) (name : String) (offset : ℕ) : Column where
  name := name
  read := do
    let length ← byte 1
    let index ← byte offset
    let str ← dmiString length.toNat index (size - length.toNat)
    pure (some (.string str))

def byteNumber (offset : ℕ) : Reads ℕ := UInt8.toNat <$> byte offset

/-- The decimal text of a number that is none of the excluded ones. -/
def numberUnless (excluded : List ℕ) (num : ℕ) : Option String :=
  if num ∈ excluded then none else some (toText num)

def hexUnless (excluded : List ℕ) (width num : ℕ) : Option String :=
  if num ∈ excluded then none else some (toHexStr num width)

def named (table : LookupTable) (num : ℕ) : Option String := table.lookup (UInt8.ofNat num)

/-- The number of megabytes; a larger one is stored at another offset. -/
def sizeFor (memBits : ℕ) : Reads (Option Value) :=
  if memBits ≠ 0xFFFF then
    if memBits ≠ 0x7FFF then pure (some (.decoded (toText memBits)))
    else (fun size => some (.decoded (toText size))) <$> dmiToDWord 0x1C
  else pure none

/-- The number of gigabytes, from one of kilobytes or of bytes. -/
def capacityFor (cap : ℕ) : Reads (Option Value) :=
  if cap ≥ 0x80000000 then
    (fun bytes => some (.decoded (toText (bytes / 1073741824)))) <$> dmiToQWord 0x0F
  else pure (some (.decoded (toText (cap / 1048576))))

/-- An address in four bytes, or in eight when the starting address has no room in four. -/
def addressFor (offset extended addr : ℕ) : Reads (Option Value) :=
  if addr ≠ 0xFFFFFFFF then
    (fun address => some (.decoded (toHexStr address 8))) <$> dmiToDWord offset
  else (fun address => some (.decoded (toHexStr address 12))) <$> dmiToQWord extended

/-! ### Generators -/

def memoryDeviceColumns (size : ℕ) : List Column :=
  [.number "handle" (dmiToWord 0x02) (hexUnless [] 4),
   .number "array_handle" (dmiToWord 0x04) (hexUnless [] 4),
   .number "form_factor" (byteNumber 0x0E) (named kSMBIOSMemoryFormFactorTable),
   .number "total_width" (dmiToWord 0x08) (numberUnless [0xFFFF]),
   .number "data_width" (dmiToWord 0x0A) (numberUnless [0xFFFF]),
   ⟨"size", dmiToWord 0x0C >>= sizeFor⟩,
   .number "set" (byteNumber 0x0F) (numberUnless [0xFF]),
   .text size "device_locator" 0x10,
   .text size "bank_locator" 0x11,
   .number "memory_type" (byteNumber 0x12) (named kSMBIOSMemoryTypeTable),
   .number "memory_type_details" (dmiToWord 0x13)
     fun bitField => some (dmiBitFieldToStr bitField kSMBIOSMemoryDetailsTable),
   .number "max_speed" (dmiToWord 0x15) (numberUnless [0x0000, 0xFFFF]),
   .number "configured_clock_speed" (dmiToWord 0x20) (numberUnless [0x0000, 0xFFFF]),
   .text size "manufacturer" 0x17,
   .text size "serial_number" 0x18,
   .text size "asset_tag" 0x19,
   .text size "part_number" 0x1A,
   .number "min_voltage" (dmiToWord 0x22) (numberUnless [0]),
   .number "max_voltage" (dmiToWord 0x24) (numberUnless [0]),
   .number "configured_voltage" (dmiToWord 0x26) (numberUnless [0])]

def genSMBIOSMemoryDevices (size : ℕ) : Reads (List Row) :=
  generate kSMBIOSTypeMemoryDevice (0x26 + 4) (memoryDeviceColumns size) size

def memoryArrayColumns : List Column :=
  [.number "handle" (dmiToWord 0x02) (hexUnless [] 4),
   .number "location" (byteNumber 0x04) (named kSMBIOSMemoryArrayLocationTable),
   .number "use" (byteNumber 0x05) (named kSMBIOSMemoryArrayUseTable),
   .number "memory_error_correction" (byteNumber 0x06)
     (named kSMBIOSMemoryArrayErrorCorrectionTypesTable),
   ⟨"max_capacity", dmiToDWord 0x07 >>= capacityFor⟩,
   .number "memory_error_info_handle" (dmiToWord 0x0B) (hexUnless [0xFFFE, 0xFFFF] 4),
   .number "number_memory_devices" (dmiToWord 0x0D) (numberUnless [])]

def genSMBIOSMemoryArrays (size : ℕ) : Reads (List Row) :=
  generate kSMBIOSTypeMemoryArray (0x0F + 8) memoryArrayColumns size

def memoryArrayMappedAddressColumns : List Column :=
  [.number "handle" (dmiToWord 0x02) (hexUnless [] 4),
   ⟨"starting_address", dmiToDWord 0x04 >>= addressFor 0x04 0x0F⟩,
   ⟨"ending_address", dmiToDWord 0x04 >>= addressFor 0x08 0x17⟩,
   .number "memory_array_handle" (dmiToWord 0x0C) (hexUnless [] 4),
   .number "partition_width" (byteNumber 0x0E) (numberUnless [])]

def genSMBIOSMemoryArrayMappedAddresses (size : ℕ) : Reads (List Row) :=
  generate kSMBIOSTypeMemoryArrayMappedAddress (0x17 + 8) memoryArrayMappedAddressColumns size

def memoryErrorInfoColumns : List Column :=
  [.number "handle" (dmiToWord 0x02) (hexUnless [] 4),
   .number "error_type" (byteNumber 0x04) (named kSMBIOSMemoryErrorTypeTable),
   .number "error_granularity" (byteNumber 0x05) (named kSMBIOSMemoryErrorGranularityTable),
   .number "error_operation" (byteNumber 0x06) (named kSMBIOSMemoryErrorOperationTable),
   .number "vendor_syndrome" (dmiToDWord 0x07) (hexUnless [0x00000000] 8),
   .number "memory_array_error_address" (dmiToDWord 0x0B) (hexUnless [0x80000000] 8),
   .number "device_error_address" (dmiToDWord 0x0F) (hexUnless [0x80000000] 8),
   .number "error_resolution" (dmiToDWord 0x13) (hexUnless [0x80000000] 8)]

def genSMBIOSMemoryErrorInfo (size : ℕ) : Reads (List Row) :=
  generate kSMBIOSTypeMemoryErrorInformation (0x13 + 4) memoryErrorInfoColumns size

def memoryDeviceMappedAddressColumns : List Column :=
  [.number "handle" (dmiToWord 0x02) (hexUnless [] 4),
   ⟨"starting_address", dmiToDWord 0x04 >>= addressFor 0x04 0x13⟩,
   ⟨"ending_address", dmiToDWord 0x04 >>= addressFor 0x08 0x1B⟩,
   .number "memory_device_handle" (dmiToWord 0x0C) (hexUnless [] 4),
   .number "partition_row_position" (byteNumber 0x10) (numberUnless []),
   .number "interleave_position" (byteNumber 0x11) (numberUnless []),
   .number "interleave_data_depth" (byteNumber 0x12) (numberUnless [])]

def genSMBIOSMemoryDeviceMappedAddresses (size : ℕ) : Reads (List Row) :=
  generate kSMBIOSTypeMemoryDeviceMappedAddress (0x1B + 8) memoryDeviceMappedAddressColumns size

/-- The loop over the strings, from a number on. -/
def oemStringRows (handle : Field) (textAddrs maxlen : ℕ) : ℕ → ℕ → Reads (List Row)
  | 0, _ => pure []
  | strings + 1, i => do
      let value ← traced (dmiString textAddrs (UInt8.ofNat i) maxlen)
      let rows ← oemStringRows handle textAddrs maxlen strings (i + 1)
      pure ([handle, ⟨"number", .decoded (toText i), []⟩,
        ⟨"value", .string value.1, value.2⟩] :: rows)

def genSMBIOSOEMStrings (size : ℕ) : Reads (List Row) := do
  if (← byte 0) ≠ kSMBIOSTypeOEMStrings ∨ size < 0x04 + 1 then pure []
  else do
    let handle ← traced (dmiToWord 0x02)
    let length ← byte 1
    let numStrings ← byte 0x04
    oemStringRows ⟨"handle", .decoded (toHexStr handle.1 4), handle.2⟩ length.toNat
      (size - length.toNat) numStrings.toNat 1

/-! ### What the columns read -/

section Columns

variable {memory : List UInt8} {n : ℕ}

theorem extent_byteNumber {offset : ℕ} (h : offset < memory.length) :
    Extent memory (byteNumber offset) (byteAt memory offset).toNat (offset + 1) :=
  extent_map _ (extent_byte h)

theorem extent_number {p : Reads ℕ} {num stop : ℕ} (h : Extent memory p num stop) (name : String)
    (shown : ℕ → Option String) :
    Extent memory (Column.number name p shown).read ((shown num).map .decoded) stop :=
  extent_bind_pure _ h

/-- The second number is read when the first one is too large. -/
theorem exists_extent_sizeFor (h : 0x20 ≤ memory.length) (memBits : ℕ) :
    ∃ value, Extent memory (sizeFor memBits) value (if memBits = 0x7FFF then 0x20 else 0) ∧
      ((∃ text, value = some (.decoded text)) ↔ memBits ≠ 0xFFFF) := by
  rw [sizeFor]
  by_cases hnone : memBits = 0xFFFF
  · rw [if_neg (not_not.2 hnone), if_neg (by omega)]
    exact ⟨none, extent_pure _, iff_of_false (by simp) (not_not.2 hnone)⟩
  · rw [if_pos hnone]
    by_cases hlarge : memBits = 0x7FFF
    · rw [if_neg (not_not.2 hlarge), if_pos hlarge]
      exact ⟨_, extent_map _ (extent_dmiToDWord h), iff_of_true ⟨_, rfl⟩ hnone⟩
    · rw [if_pos hlarge, if_neg hlarge]
      exact ⟨_, extent_pure _, iff_of_true ⟨_, rfl⟩ hnone⟩

theorem exists_extent_capacityFor (h : 0x17 ≤ memory.length) (cap : ℕ) :
    ∃ text, Extent memory (capacityFor cap) (some (.decoded text))
      (if cap ≥ 0x80000000 then 0x17 else 0) := by
  rw [capacityFor]
  split_ifs with hlarge
  · exact ⟨_, extent_map _ (extent_dmiToQWord h)⟩
  · exact ⟨_, extent_pure _⟩

theorem exists_extent_addressFor {offset extended : ℕ} (h : offset + 4 ≤ memory.length)
    (hextended : extended + 8 ≤ memory.length) (addr : ℕ) :
    ∃ text, Extent memory (addressFor offset extended addr) (some (.decoded text))
      (if addr = 0xFFFFFFFF then extended + 8 else offset + 4) := by
  rw [addressFor]
  by_cases hlarge : addr = 0xFFFFFFFF
  · rw [if_neg (not_not.2 hlarge), if_pos hlarge]
    exact ⟨_, extent_map _ (extent_dmiToQWord hextended)⟩
  · rw [if_pos hlarge, if_neg hlarge]
    exact ⟨_, extent_map _ (extent_dmiToDWord h)⟩

end Columns

end Osquery.Smbios
