import Osquery.Core.Status
import Mathlib.Algebra.Group.Nat.Defs
import Mathlib.Data.List.Basic

/-!
# Reading a file and checking whether it can be read

`readFile` compares the size of a file with a limit, and then either stops, in a dry run, or
reads block by block and hands every block on while it compares the bytes read so far with the
limit again. The two comparisons differ: a file that is exactly as long as the limit passes the
first one and fails the second, after all but its last block have been handed on.

## Implementation notes

`off_t` is a signed 64-bit integer. An opened file is the size that `fstat` reports together
with what the successive calls of `read` return before the end of the file. Times of the file
are neither read nor restored.
-/

namespace Osquery.Filesystem.ReadFile

open Osquery.Core

/-- `static_cast<off_t>`. -/
def toOff (size : UInt64) : ℤ := size.toInt64.toInt

structure File where
  size : UInt64
  blocks : List (List UInt8)

def File.bytes (file : File) : List UInt8 := file.blocks.flatten

/-- A file whose size is that of its content, read in blocks that may be short. -/
structure RegularFile extends File where
  size_eq : size.toNat = toFile.bytes.length
  size_lt : size.toNat < 2 ^ 63
  block_ne_nil : ∀ block ∈ blocks, block ≠ []
  block_le : ∀ block ∈ blocks, block.length ≤ 4096

def File.isSpecialFile (file : File) : Bool := file.size == 0

variable {σ : Type*}

def exceedsLimits : Status := ⟨1, "File exceeds read limits"⟩

/-- The loop over blocks; the buffer that is handed on has the length of a block. -/
def readBlocks (read_max file_size : ℤ) (block_size : ℕ) (predicate : σ → List UInt8 → ℕ → σ) :
    ℤ → List (List UInt8) → σ → Status × σ
  | _, [], s => (⟨0, "OK"⟩, s)
  | total_bytes, block :: blocks, s =>
      let part := block ++ List.replicate (block_size - block.length) 0
      let total_bytes := total_bytes + block.length
      if total_bytes ≥ read_max then (exceedsLimits, s)
      else if file_size > 0 ∧ total_bytes > file_size then
        (⟨0, "OK"⟩, predicate s part (block.length - (total_bytes - file_size).toNat))
      else
        readBlocks read_max file_size block_size predicate total_bytes blocks
          (predicate s part block.length)

/-- The loop that fills one buffer, and goes on as long as a read is short. -/
def readWhole (file_size : ℕ) : List UInt8 → List (List UInt8) → List UInt8
  | content, [] => content
  | content, block :: blocks =>
      let read := block.take (file_size - content.length)
      if read.length < file_size - content.length then readWhole file_size (content ++ read) blocks
      else content ++ read

/-- `readFile` with a predicate. The file is absent when it cannot be opened. -/
def readFile (FLAGS_read_max : UInt64) (canonical : String → String) (path : String)
    (file : Option File) (size : UInt64) (block_size : ℕ) (dry_run : Bool)
    (predicate : σ → List UInt8 → ℕ → σ) (s : σ) : Status × σ :=
  match file with
  | none => (⟨1, "Cannot open file for reading: " ++ path⟩, s)
  | some file =>
      let file_size := if file.isSpecialFile ∧ size > 0 then toOff size else toOff file.size
      let read_max := toOff FLAGS_read_max
      if file_size > read_max then (exceedsLimits, s)
      else if dry_run then (⟨0, canonical path⟩, s)
      else if file_size = 0 ∨ block_size > 0 then
        let block_size := if block_size < 4096 then 4096 else block_size
        readBlocks read_max file_size block_size predicate 0 file.blocks s
      else
        let content := readWhole file_size.toNat [] file.blocks
        (⟨0, "OK"⟩, predicate s (content ++ List.replicate (file_size.toNat - content.length) 0)
          file_size.toNat)

/-- What the other `readFile` does with each buffer. -/
def appendBuffer (content buffer : List UInt8) (size : ℕ) : List UInt8 :=
  if buffer.length = size then content ++ buffer else content ++ buffer.take size

/-- `readFile` into a text. -/
def readFileContent (FLAGS_read_max : UInt64) (canonical : String → String) (path : String)
    (file : Option File) (content : List UInt8) (size : UInt64) (dry_run : Bool) :
    Status × List UInt8 :=
  readFile FLAGS_read_max canonical path file size 4096 dry_run appendBuffer content

/-! ### The loop over the blocks of a regular file -/

@[simp] theorem appendBuffer_block (content block : List UInt8) (n : ℕ) :
    appendBuffer content (block ++ List.replicate n 0) block.length = content ++ block := by
  rw [appendBuffer]
  split_ifs with hlength
  · have hn : n = 0 := by simpa using hlength
    rw [hn, List.replicate_zero, List.append_nil]
  · rw [List.take_left]

section Blocks

variable {read_max file_size : ℤ} {block_size : ℕ}

/-- Within the size of the file the loop ends well if it stays below the limit, and has
appended every block. -/
theorem readBlocks_of_lt {blocks : List (List UInt8)} {total_bytes : ℤ}
    (hsize : total_bytes + blocks.flatten.length ≤ file_size)
    (hlt : blocks = [] ∨ total_bytes + blocks.flatten.length < read_max) (content : List UInt8) :
    readBlocks read_max file_size block_size appendBuffer total_bytes blocks content =
      (⟨0, "OK"⟩, content ++ blocks.flatten) := by
  induction blocks generalizing total_bytes content with
  | nil => rw [readBlocks, List.flatten_nil, List.append_nil]
  | cons block blocks ih =>
      rw [List.flatten_cons, List.length_append, Int.natCast_add] at hsize hlt
      have hbelow : total_bytes + (block.length + blocks.flatten.length) < read_max :=
        hlt.resolve_left (List.cons_ne_nil _ _)
      rw [readBlocks, if_neg (by omega), if_neg (by omega), appendBuffer_block,
        ih (by omega) (.inr (by omega)), List.flatten_cons, List.append_assoc]

/-- The loop fails once the bytes read so far reach the limit. -/
theorem readBlocks_of_ge {blocks : List (List UInt8)} {total_bytes : ℤ}
    (hsize : total_bytes + blocks.flatten.length ≤ file_size) (hne : blocks ≠ [])
    (hge : read_max ≤ total_bytes + blocks.flatten.length) (content : List UInt8) :
    (readBlocks read_max file_size block_size appendBuffer total_bytes blocks content).1 =
      exceedsLimits := by
  induction blocks generalizing total_bytes content with
  | nil => exact absurd rfl hne
  | cons block blocks ih =>
      rw [List.flatten_cons, List.length_append, Int.natCast_add] at hsize hge
      rw [readBlocks]
      by_cases hreached : total_bytes + block.length ≥ read_max
      · rw [if_pos hreached]
      · have hrest : blocks ≠ [] := by
          rintro rfl
          rw [List.flatten_nil, List.length_nil] at hge
          omega
        rw [if_neg hreached, if_neg (by omega), ih (by omega) hrest (by omega)]

end Blocks

/-! ### Checking and reading -/

section Agreement

variable (FLAGS_read_max : UInt64) (canonical : String → String) (path : String)
variable (file : RegularFile) (content : List UInt8) (size : UInt64)

/-- A dry run succeeds as a read does, and a read appends the bytes of the file or nothing. -/
structure ReadsAsChecked : Prop where
  same_outcome :
    (readFileContent FLAGS_read_max canonical path (some file.toFile) content size true).1.ok =
      (readFileContent FLAGS_read_max canonical path (some file.toFile) content size false).1.ok
  appends_bytes :
    (readFileContent FLAGS_read_max canonical path (some file.toFile) content size false).1.ok =
        true →
      (readFileContent FLAGS_read_max canonical path (some file.toFile) content size false).2 =
        content ++ file.bytes
  appends_nothing :
    (readFileContent FLAGS_read_max canonical path (some file.toFile) content size false).1.ok =
        false →
      (readFileContent FLAGS_read_max canonical path (some file.toFile) content size false).2 =
        content

theorem RegularFile.toOff_size : toOff file.size = file.bytes.length := by
  have hlt := file.size_lt
  have hword : file.size.toInt64.toBitVec.toNat = file.size.toNat := rfl
  rw [toOff, Int64.toInt, BitVec.toInt_eq_toNat_of_lt (by omega), hword, file.size_eq]

theorem RegularFile.bytes_eq_nil : file.bytes = [] ↔ file.blocks = [] := by
  constructor
  · intro h
    cases hblocks : file.blocks with
    | nil => rfl
    | cons block blocks =>
        have hblock : block ≠ [] := file.block_ne_nil block (hblocks ▸ List.mem_cons_self)
        rw [File.bytes, hblocks, List.flatten_cons, List.append_eq_nil_iff] at h
        exact absurd h.1 hblock
  · intro h
    rw [File.bytes, h, List.flatten_nil]

/-- The size that is compared with the limit before the file is read. -/
def checkedSize : ℤ :=
  if file.isSpecialFile ∧ size > 0 then toOff size else toOff file.size

theorem checkedSize_of_ne_nil (hne : file.bytes ≠ []) :
    checkedSize file size = file.bytes.length := by
  have hspecial : file.isSpecialFile = false := by
    have hlength : file.bytes.length ≠ 0 := fun h => hne (List.length_eq_zero_iff.1 h)
    rw [File.isSpecialFile, beq_eq_false_iff_ne]
    intro hzero
    rw [← file.size_eq, hzero] at hlength
    exact hlength rfl
  rw [checkedSize, hspecial, if_neg (by simp), file.toOff_size]

theorem readFileContent_dry :
    readFileContent FLAGS_read_max canonical path (some file.toFile) content size true =
      if checkedSize file size > toOff FLAGS_read_max then (exceedsLimits, content)
      else (⟨0, canonical path⟩, content) := rfl

theorem readFileContent_read :
    readFileContent FLAGS_read_max canonical path (some file.toFile) content size false =
      if checkedSize file size > toOff FLAGS_read_max then (exceedsLimits, content)
      else readBlocks (toOff FLAGS_read_max) (checkedSize file size) 4096 appendBuffer 0 file.blocks
        content := by
  simp [readFileContent, readFile, checkedSize]

/-- A file that is refused by the check is refused by the read. -/
theorem readsAsChecked_of_gt (h : checkedSize file size > toOff FLAGS_read_max) :
    ReadsAsChecked FLAGS_read_max canonical path file content size := by
  constructor
  · rw [readFileContent_dry, readFileContent_read, if_pos h, if_pos h]
  · rw [readFileContent_read, if_pos h]
    intro hok
    cases hok
  · rw [readFileContent_read, if_pos h]
    exact fun _ => rfl

/-- A file that passes the check is read if its loop appends its bytes. -/
theorem readsAsChecked_of_le (h : ¬ checkedSize file size > toOff FLAGS_read_max)
    (hread : readBlocks (toOff FLAGS_read_max) (checkedSize file size) 4096 appendBuffer 0
      file.blocks content = (⟨0, "OK"⟩, content ++ file.bytes)) :
    ReadsAsChecked FLAGS_read_max canonical path file content size := by
  constructor
  · rw [readFileContent_dry, readFileContent_read, if_neg h, if_neg h, hread]
    rfl
  · rw [readFileContent_read, if_neg h, hread]
    exact fun _ => rfl
  · rw [readFileContent_read, if_neg h, hread]
    intro hfailed
    cases hfailed

/-- A read agrees with the check exactly when the file is not just as long as the limit. -/
theorem readsAsChecked_iff :
    ReadsAsChecked FLAGS_read_max canonical path file content size ↔
      ¬ (file.bytes ≠ [] ∧ file.bytes.length = toOff FLAGS_read_max) := by
  constructor
  · rintro hagrees ⟨hne, hlimit⟩
    have hsize := checkedSize_of_ne_nil file size hne
    have hchecked : ¬ checkedSize file size > toOff FLAGS_read_max := by omega
    have hfails : (readBlocks (toOff FLAGS_read_max) (checkedSize file size) 4096 appendBuffer 0
        file.blocks content).1 = exceedsLimits := by
      rw [File.bytes] at hsize hlimit
      exact readBlocks_of_ge (by omega) (fun h => hne (file.bytes_eq_nil.2 h)) (by omega) content
    have hsame := hagrees.same_outcome
    rw [readFileContent_dry, readFileContent_read, if_neg hchecked, if_neg hchecked,
      hfails] at hsame
    cases hsame
  · intro hlimit
    by_cases hchecked : checkedSize file size > toOff FLAGS_read_max
    · exact readsAsChecked_of_gt _ _ _ _ _ _ hchecked
    · apply readsAsChecked_of_le _ _ _ _ _ _ hchecked
      by_cases hne : file.bytes = []
      · rw [file.bytes_eq_nil.1 hne, hne, readBlocks, List.append_nil]
      · have hsize := checkedSize_of_ne_nil file size hne
        have hbelow : (file.bytes.length : ℤ) ≠ toOff FLAGS_read_max := fun h => hlimit ⟨hne, h⟩
        rw [File.bytes] at hsize hbelow
        exact readBlocks_of_lt (by omega) (.inr (by omega)) content

end Agreement

/-- Two bytes that are read one at a time. -/
def twoBytes : RegularFile where
  size := 2
  blocks := [[97], [98]]
  size_eq := rfl
  size_lt := by decide
  block_ne_nil := by decide
  block_le := by decide

/-- With a limit of two bytes the dry run succeeds, and the read fails after it has appended the
first byte. -/
theorem twoBytes_checked_not_read :
    ¬ ReadsAsChecked 2 id "/tmp/f" twoBytes [] 0 := by
  intro h
  have hsame := h.same_outcome
  revert hsame
  decide

end Osquery.Filesystem.ReadFile
