import Osquery.FileEvents.Descriptors
import Osquery.AuditTables.ProcessEvents
import Osquery.Foundation.Hexadecimal
import Osquery.Foundation.LimitedMaps

/-!
# Calls on files

Each system call has a context, which its records are read into, and a handler, which updates
the maps of descriptors and inodes and leaves data in the context. Descriptors lead to inodes
and inodes to paths, so a read or a write is given the path that was saved last for the inode
of its descriptor.

## Implementation notes

No result of a handler stands for what ends the process: an erased entry is used, or the last
character of an empty path is taken. The calls that open, close and copy descriptors are
handled as in `Descriptors`. The normal form of a path and the decoding of hexadecimal text are
inputs, and warnings are left out. The numbers of the calls are those of x86-64.
-/

namespace Osquery.FileEvents.Monitoring

open EventPublishers AuditTables Foundation.Numeral Foundation.Hexadecimal
open Foundation.LimitedMaps Core.Rows

def AUDIT_MMAP : ℤ := 1323

def PROT_WRITE : UInt64 := 2

/-! ### The context of a system call -/

inductive SyscallType
  | Link
  | Symlink
  | Unlink
  | Rename
  | Open
  | OpenTruncate
  | Close
  | Dup
  | Read
  | Write
  | Truncate
  | Mmap
  | NameToHandleAt
  | CloneOrFork
  deriving DecidableEq

inductive IOType
  | Open
  | OpenTruncate
  | Read
  | Write
  | Close
  | Unlink
  deriving DecidableEq

structure AuditdFimSrcDestData where
  source : String := ""
  destination : String := ""
  deriving DecidableEq

structure AuditdFimIOData where
  target : String
  type : IOType
  state_changed : Bool
  deriving DecidableEq

inductive SyscallData
  | src_dest (data : AuditdFimSrcDestData)
  | io (data : AuditdFimIOData)
  deriving DecidableEq

structure SyscallContext where
  type : SyscallType := .Link
  syscall_number : UInt64
  partially : Bool := false
  cwd : String := ""
  path_record_map : Std.ExtTreeMap ℕ AuditdFimPathRecordItem := ∅
  process_id : Int32
  parent_process_id : Int32
  process_uid : UInt32
  process_gid : UInt32
  process_euid : UInt32
  process_egid : UInt32
  executable_path : String
  return_value : UInt64 := 0
  syscall_data : SyscallData := .src_dest {}
  mmap_record_present : Bool := false
  mmap_file_descriptor : UInt64 := 0
  mmap_prot_flags : UInt64 := 0
  deriving DecidableEq

namespace SyscallContext

/-- An item that is missing is inserted with default values. -/
def item (syscall_context : SyscallContext) (index : ℕ) : AuditdFimPathRecordItem :=
  syscall_context.path_record_map.getD index {}

def pid (syscall_context : SyscallContext) : ℤ := syscall_context.process_id.toInt

/-- The context with the result of the call. -/
def returned (syscall_context : SyscallContext) (return_value : UInt64) : SyscallContext :=
  { syscall_context with return_value }

end SyscallContext

/-! ### System calls -/

/-- The calls that are handled: first those that open, close and copy descriptors. -/
inductive SyscallNumber
  | descriptors (number : FileEvents.SyscallNumber)
  | nr_link
  | nr_linkat
  | nr_symlink
  | nr_symlinkat
  | nr_unlink
  | nr_unlinkat
  | nr_rename
  | nr_renameat
  | nr_renameat2
  | nr_name_to_handle_at
  | nr_pread64
  | nr_preadv
  | nr_read
  | nr_readv
  | nr_mmap
  | nr_write
  | nr_writev
  | nr_pwrite64
  | nr_pwritev
  | nr_truncate
  | nr_ftruncate
  deriving DecidableEq

def getSyscallSet : List (UInt64 × SyscallNumber) :=
  [(86, .nr_link), (265, .nr_linkat), (88, .nr_symlink), (266, .nr_symlinkat), (87, .nr_unlink),
    (263, .nr_unlinkat), (82, .nr_rename), (264, .nr_renameat), (316, .nr_renameat2),
    (85, .descriptors .nr_creat), (133, .descriptors .nr_mknod), (259, .descriptors .nr_mknodat),
    (2, .descriptors .nr_open), (257, .descriptors .nr_openat),
    (304, .descriptors .nr_open_by_handle_at), (303, .nr_name_to_handle_at),
    (3, .descriptors .nr_close), (32, .descriptors .nr_dup), (33, .descriptors .nr_dup2),
    (292, .descriptors .nr_dup3), (17, .nr_pread64), (295, .nr_preadv), (0, .nr_read),
    (19, .nr_readv), (9, .nr_mmap), (1, .nr_write), (20, .nr_writev), (18, .nr_pwrite64),
    (296, .nr_pwritev), (76, .nr_truncate), (77, .nr_ftruncate), (56, .descriptors .nr_clone),
    (57, .descriptors .nr_fork), (58, .descriptors .nr_vfork)]

/-- The number is looked up as an `int`. -/
def shouldHandle (syscall_number : UInt64) : Bool :=
  getSyscallSet.any fun call => call.1.toUInt32 == syscall_number.toUInt32

/-- The case of a `switch` on the number. -/
def syscallCase (syscall_number : UInt64) : Option SyscallNumber :=
  getSyscallSet.lookup syscall_number

/-- The value of a field with a number of the base 16. -/
def getIntegerFieldFromMap16 (field_map : Std.ExtTreeMap String String) (field_name : String) :
    Option UInt64 :=
  field_map[field_name]?.bind fun string_value => (stoull16 string_value).toOption

/-! ### Records -/

section Records

variable (unhex : String → Option String)

def parseAuditMmapRecord (syscall_context : SyscallContext) (record : AuditEventRecord) :
    Option SyscallContext :=
  (getIntegerFieldFromMap16 record.fields "fd").map fun fd =>
    { syscall_context with
      mmap_record_present := true
      mmap_file_descriptor := fd
      mmap_prot_flags := (getIntegerFieldFromMap16 record.fields "flags").getD PROT_WRITE }

/-- The inode and the name may be missing. -/
def parseAuditPathRecord (record : AuditEventRecord) : Option AuditdFimPathRecordItem :=
  (getIntegerFieldFromMap record.fields "item").map fun item_index =>
    { index := item_index.toNat
      inode := (getIntegerFieldFromMap record.fields "inode").getD 0
      path := (record.fields["name"]?.map (decodeAuditPathValues unhex)).getD "" }

/-- What some records are read into. -/
structure Reading where
  syscall_context : SyscallContext
  syscall_record : Option AuditEventRecord := none

/-- No result means a record error. -/
def readRecord (s : Reading) (record : AuditEventRecord) : Option Reading :=
  if record.type = AUDIT_SYSCALL then some { s with syscall_record := some record }
  else if record.type = AUDIT_CWD then
    record.fields["cwd"]?.map fun buffer =>
      { s with
        syscall_context := { s.syscall_context with cwd := decodeAuditPathValues unhex buffer } }
  else if record.type = AUDIT_PATH then
    (parseAuditPathRecord unhex record).map fun output =>
      { s with
        syscall_context :=
          { s.syscall_context with
            path_record_map := s.syscall_context.path_record_map.insert output.index output } }
  else if record.type = AUDIT_MMAP then
    (parseAuditMmapRecord s.syscall_context record).map fun syscall_context =>
      { s with syscall_context }
  else some s

end Records

/-! ### Handlers -/

/-- What a handler leaves. -/
structure Outcome where
  fim_context : AuditdFimContext
  syscall_context : SyscallContext
  ok : Bool := true
  skip_row_emission : Bool := false

section Handlers

variable (normalize : String → String)

/-- Whether a call on a descriptor writes, and its type. -/
def descriptorUse (number : SyscallNumber) (mmap_prot_flags : UInt64) : Bool × SyscallType :=
  match number with
  | .nr_pread64 | .nr_preadv | .nr_read | .nr_readv => (false, .Read)
  | .nr_pwrite64 | .nr_pwritev | .nr_write | .nr_writev => (true, .Write)
  | .nr_ftruncate => (true, .Truncate)
  | .nr_mmap => (mmap_prot_flags &&& PROT_WRITE != 0, .Mmap)
  | _ => (false, .Link)

/-- The calls that read from a descriptor or write to one. -/
def UsesDescriptor : SyscallNumber → Prop
  | .nr_pread64 | .nr_preadv | .nr_read | .nr_readv | .nr_write | .nr_writev | .nr_pwrite64
  | .nr_pwritev | .nr_ftruncate | .nr_mmap => True
  | _ => False

/-- The operation that is noted for a descriptor, and whether its state changed. -/
def nextOperation (write_operation : Bool) (last_operation : OperationType) :
    OperationType × Bool :=
  match last_operation with
  | .OpenTruncate | .Open => (if write_operation then .Write else .Read, true)
  | .Read => if write_operation then (.Write, true) else (.Read, false)
  | .Write => (.Write, false)

/-- An entry that is there is changed in place. -/
def setOperation (data : AuditdFimProcessMap) (process_id : ℤ) (fd : UInt64)
    (last_operation : OperationType) : AuditdFimProcessMap :=
  data.modify process_id fun fd_map =>
    fd_map.modify fd fun fd_desc => { fd_desc with last_operation }

/-- The descriptor of a call. That of `mmap` is in a record of its own. -/
def descriptorOf (number : SyscallNumber) (syscall_context : SyscallContext)
    (record : AuditEventRecord) : Option UInt64 :=
  if number = .nr_mmap then some syscall_context.mmap_file_descriptor
  else getIntegerFieldFromMap16 record.fields "a0"

def handleFileDescriptorSyscallRecord (fim_context : AuditdFimContext) (number : SyscallNumber)
    (syscall_context : SyscallContext) (record : AuditEventRecord) : Outcome :=
  let use := descriptorUse number syscall_context.mmap_prot_flags
  let typed := { syscall_context with type := use.2 }
  match descriptorOf number syscall_context record with
  | none => { fim_context, syscall_context := { typed with partially := true }, ok := false }
  | some fd =>
      match fim_context.process_map.getReference syscall_context.pid fd with
      | none => { fim_context, syscall_context := { typed with partially := true }, ok := false }
      | some fd_desc =>
          let next := nextOperation use.1 fd_desc.last_operation
          let process_map :=
            setOperation fim_context.process_map syscall_context.pid fd next.1
          { fim_context := { fim_context with process_map }
            syscall_context :=
              match fim_context.inode_map[fd_desc.inode]? with
              | none => { typed with partially := true }
              | some ino_desc =>
                  { typed with
                    syscall_data :=
                      .io ⟨ino_desc.path, if use.1 then .Write else .Read, next.2⟩ } }

section FileDescriptor

variable {fim_context : AuditdFimContext} {number : SyscallNumber}
  {syscall_context : SyscallContext} {record : AuditEventRecord}

/-- A descriptor that is not known changes nothing. -/
theorem handleFileDescriptor_of_unknown
    (h : ∀ fd, descriptorOf number syscall_context record = some fd →
      fim_context.process_map.getReference syscall_context.pid fd = none) :
    ∃ left : SyscallContext,
      handleFileDescriptorSyscallRecord fim_context number syscall_context record =
        { fim_context, syscall_context := left, ok := false } := by
  rw [handleFileDescriptorSyscallRecord]
  cases hfd : descriptorOf number syscall_context record with
  | none => exact ⟨_, rfl⟩
  | some fd =>
      simp only [h fd hfd]
      exact ⟨_, rfl⟩

/-- A known descriptor whose inode has no path leaves no data. -/
theorem handleFileDescriptor_of_missing {fd : UInt64} {fd_desc : AuditdFimFdDescriptor}
    (hfd : descriptorOf number syscall_context record = some fd)
    (h : fim_context.process_map.getReference syscall_context.pid fd = some fd_desc)
    (hinode : fim_context.inode_map[fd_desc.inode]? = none) :
    ∃ process_map,
      handleFileDescriptorSyscallRecord fim_context number syscall_context record =
        { fim_context := { fim_context with process_map }
          syscall_context :=
            { syscall_context with
              type := (descriptorUse number syscall_context.mmap_prot_flags).2
              partially := true } } := by
  simp only [handleFileDescriptorSyscallRecord, hfd, h, hinode]
  exact ⟨_, rfl⟩

/-- A known descriptor is given the path of its inode. -/
theorem handleFileDescriptor_of_found {fd : UInt64} {fd_desc : AuditdFimFdDescriptor}
    (hfd : descriptorOf number syscall_context record = some fd)
    (h : fim_context.process_map.getReference syscall_context.pid fd = some fd_desc)
    {ino_desc : AuditdFimInodeDescriptor}
    (hinode : fim_context.inode_map[fd_desc.inode]? = some ino_desc) :
    ∃ process_map type state_changed,
      handleFileDescriptorSyscallRecord fim_context number syscall_context record =
        { fim_context := { fim_context with process_map }
          syscall_context :=
            { syscall_context with
              type := (descriptorUse number syscall_context.mmap_prot_flags).2
              syscall_data := .io ⟨ino_desc.path, type, state_changed⟩ } } := by
  simp only [handleFileDescriptorSyscallRecord, hfd, h, hinode]
  exact ⟨_, _, _, rfl⟩

variable (fim_context number syscall_context record)

/-- A call on a descriptor leaves the paths alone. -/
theorem inode_map_fileDescriptor :
    (handleFileDescriptorSyscallRecord fim_context number syscall_context
      record).fim_context.inode_map = fim_context.inode_map := by
  rw [handleFileDescriptorSyscallRecord]
  dsimp only
  split
  · rfl
  · split
    · rfl
    · rfl

end FileDescriptor

def handleUnlinkSyscallRecord (fim_context : AuditdFimContext) (syscall_context : SyscallContext) :
    Outcome :=
  let typed := { syscall_context with type := .Unlink }
  if syscall_context.path_record_map.size ≠ 2 then
    { fim_context, syscall_context := { typed with partially := true }, ok := false }
  else
    let target :=
      normalizePath normalize (syscall_context.item 0).path (syscall_context.item 1).path
    { fim_context :=
        { fim_context with
          inode_map := fim_context.inode_map.erase (syscall_context.item 1).inode }
      syscall_context := { typed with syscall_data := .io ⟨target, .Unlink, true⟩ } }

/-- The index of the destination among the items of a `rename`. -/
def renameDestination (syscall_context : SyscallContext) : Option ℕ :=
  if syscall_context.path_record_map.size = 4 then some 3
  else if syscall_context.path_record_map.size = 5 then some 4
  else none

def handleRenameSyscallRecord (fim_context : AuditdFimContext) (syscall_context : SyscallContext) :
    Outcome :=
  let typed := { syscall_context with type := .Rename }
  match renameDestination syscall_context with
  | none => { fim_context, syscall_context := { typed with partially := true }, ok := false }
  | some index =>
      let source :=
        normalizePath normalize (syscall_context.item 0).path (syscall_context.item 2).path
      let destination :=
        normalizePath normalize (syscall_context.item 1).path (syscall_context.item index).path
      let named := { typed with syscall_data := .src_dest ⟨source, destination⟩ }
      match fim_context.inode_map[(syscall_context.item 2).inode]? with
      | none => { fim_context, syscall_context := { named with partially := true }, ok := false }
      | some ino_desc =>
          let inode_map : AuditdFimInodeMap :=
            fim_context.inode_map.erase (syscall_context.item 2).inode
          { fim_context :=
              { fim_context with
                inode_map :=
                  inode_map.save (syscall_context.item 3).inode ino_desc.type ino_desc.path }
            syscall_context := named }

/-- The type of a path by its last character. -/
def pathType (path : String) : Option InodeType :=
  path.toList.getLast?.map fun c => if c = '/' then .Folder else .File

/-- The calls that make a symbolic link. -/
def isSymbolic (number : SyscallNumber) : Bool := number = .nr_symlink ∨ number = .nr_symlinkat

/-- The inode that the old path of a link is saved for. -/
def linkSource (number : SyscallNumber) (syscall_context : SyscallContext) : UInt64 :=
  if isSymbolic number then (syscall_context.item 0).inode else (syscall_context.item 2).inode

def handleLinkAndSymlinkSyscallRecord (fim_context : AuditdFimContext) (number : SyscallNumber)
    (syscall_context : SyscallContext) : Option Outcome :=
  let typed :=
    { syscall_context with type := if isSymbolic number then .Symlink else .Link }
  if syscall_context.path_record_map.size ≠ 3 then
    some { fim_context, syscall_context := { typed with partially := true }, ok := false }
  else
    let source := normalizePath normalize syscall_context.cwd (syscall_context.item 0).path
    let destination :=
      normalizePath normalize (syscall_context.item 1).path (syscall_context.item 2).path
    (if isSymbolic number then pathType (syscall_context.item 0).path else some .File).map
      fun source_type =>
        let inode_map :=
          fim_context.inode_map.save (linkSource number syscall_context) source_type source
        { fim_context :=
            { fim_context with
              inode_map := inode_map.save (syscall_context.item 2).inode .File destination }
          syscall_context := { typed with syscall_data := .src_dest ⟨source, destination⟩ } }

def handleNameToHandleAtSyscallRecord (fim_context : AuditdFimContext)
    (syscall_context : SyscallContext) : Option Outcome :=
  let typed := { syscall_context with type := .NameToHandleAt }
  if syscall_context.path_record_map.size ≠ 1 then
    some { fim_context, syscall_context := { typed with partially := true }, ok := false }
  else
    (pathType (syscall_context.item 0).path).map fun type =>
      let normalized_path :=
        normalizePath normalize syscall_context.cwd (syscall_context.item 0).path
      { fim_context :=
          { fim_context with
            inode_map :=
              fim_context.inode_map.save (syscall_context.item 0).inode type normalized_path }
        syscall_context := typed }

def handleTruncateSyscallRecord (fim_context : AuditdFimContext)
    (syscall_context : SyscallContext) : Outcome :=
  let typed := { syscall_context with type := .Truncate }
  if syscall_context.path_record_map.size ≠ 1 then
    { fim_context, syscall_context := { typed with partially := true }, ok := false }
  else
    let target := normalizePath normalize syscall_context.cwd (syscall_context.item 0).path
    { fim_context :=
        { fim_context with
          inode_map :=
            fim_context.inode_map.save (syscall_context.item 0).inode .File target }
      syscall_context := { typed with syscall_data := .io ⟨target, .Write, true⟩ } }

/-! ### Calls that open, close and copy descriptors -/

def SyscallType.ofHandled : FileEvents.SyscallType → SyscallType
  | .Link => .Link
  | .Open => .Open
  | .OpenTruncate => .OpenTruncate
  | .Close => .Close
  | .Dup => .Dup
  | .CloneOrFork => .CloneOrFork

def IOType.ofHandled : FileEvents.IOType → IOType
  | .Open => .Open
  | .OpenTruncate => .OpenTruncate
  | .Close => .Close

/-- The call of a context and its record. -/
def toSyscall (number : FileEvents.SyscallNumber) (syscall_context : SyscallContext)
    (record : AuditEventRecord) : Syscall where
  syscall_number := number
  process_id := syscall_context.pid
  cwd := syscall_context.cwd
  path_record_map := syscall_context.path_record_map
  a0 := getIntegerFieldFromMap16 record.fields "a0"
  a1 := getIntegerFieldFromMap16 record.fields "a1"
  a2 := getIntegerFieldFromMap16 record.fields "a2"
  exit := some syscall_context.return_value

def Outcome.ofHandled (syscall_context : SyscallContext) (handled : Handled) : Outcome where
  fim_context := handled.fim_context
  syscall_context :=
    { syscall_context with
      type := .ofHandled handled.type
      partially := syscall_context.partially || handled.partially
      syscall_data :=
        match handled.syscall_data with
        | none => syscall_context.syscall_data
        | some data => .io ⟨data.target, .ofHandled data.type, data.state_changed⟩ }
  ok := handled.ok
  skip_row_emission := handled.skip_row_emission

/-- The calls whose result is a new descriptor of a file. -/
def savesDescriptor : FileEvents.SyscallNumber → Bool
  | .nr_creat | .nr_mknod | .nr_mknodat | .nr_open | .nr_openat | .nr_open_by_handle_at => true
  | _ => false

/-- The entry that is made for a new process goes before the descriptor is saved in it. -/
def usesErased (process_map : AuditdFimProcessMap) (process_id : ℤ) : Bool :=
  let data := process_map.insert process_id ∅
  !(process_map[process_id]?).isSome && data.size > 4096 && data.minKey? == some process_id

/-- The entry that is made for the process is the first of too many. -/
def Erased (process_map : AuditdFimProcessMap) (process_id : ℤ) : Prop :=
  process_id ∉ process_map ∧ Displaces 4096 process_map process_id process_id

theorem usesErased_iff {process_map : AuditdFimProcessMap} {process_id : ℤ} :
    usesErased process_map process_id = true ↔ Erased process_map process_id := by
  rw [Erased, displaces_iff ∅, Std.ExtTreeMap.mem_iff_isSome_getElem?, usesErased]
  simp only [Bool.and_eq_true, Bool.not_eq_true', Bool.not_eq_true, decide_eq_true_eq, beq_iff_eq,
    and_assoc, gt_iff_lt]

/-- What is known of a descriptor after one was saved: an entry that is there stays. -/
theorem getReference_save {process_map : AuditdFimProcessMap} {process_id : ℤ}
    (h : ¬Erased process_map process_id) (fd inode : UInt64) (last_operation : OperationType)
    (n : UInt64) :
    (process_map.save fd process_id inode last_operation).getReference process_id n =
      (process_map.getReference process_id n).or
        (if n = fd then some ⟨inode, last_operation⟩ else none) := by
  have hinsert : ∀ data : AuditdFimProcessMap, ∀ fd_map : AuditdFimFdMap,
      AuditdFimProcessMap.getReference
          (data.insert process_id (fd_map.save fd inode last_operation)) process_id n =
        fd_map[n]?.or (if n = fd then some ⟨inode, last_operation⟩ else none) := by
    intro data fd_map
    rw [AuditdFimProcessMap.getReference, Std.ExtTreeMap.getElem?_insert_self, Option.bind_some,
      AuditdFimFdMap.save, Foundation.Changes.getElem?_insertIfNew_eq]
    by_cases hn : n = fd
    · rw [if_pos hn, if_pos hn, hn]
    · rw [if_neg hn, if_neg hn, Option.or_none]
  cases hdata : process_map[process_id]? with
  | some fd_map =>
      rw [AuditdFimProcessMap.save, hdata]
      simp only [Option.isSome_some, if_true, hdata]
      rw [hinsert, AuditdFimProcessMap.getReference, hdata]
      rfl
  | none =>
      have hkept : ¬Displaces 4096 process_map process_id process_id := by
        intro hdisplaces
        apply h ⟨_, hdisplaces⟩
        rw [Std.ExtTreeMap.mem_iff_isSome_getElem?, hdata]
        simp
      have hlimit : AuditdFimProcessMap.limit (process_map.insert process_id ∅) =
          insertLimited 4096 process_map process_id ∅ := by
        rw [AuditdFimProcessMap.limit, insertLimited, limited]
        split
        · cases (process_map.insert process_id ∅).minKey? <;> rfl
        · rfl
      have hnew : (AuditdFimProcessMap.limit (process_map.insert process_id ∅))[process_id]? =
          some ∅ := by
        rw [hlimit]
        exact getElem?_insertLimited_self hkept ∅
      rw [AuditdFimProcessMap.save, hdata]
      simp only [Option.isSome_none, Bool.false_eq_true, if_false, hnew]
      rw [hinsert, AuditdFimProcessMap.getReference, hdata]
      simp

/-- The descriptor that is removed is the one that is known. -/
theorem takeAndRemove_fst (process_map : AuditdFimProcessMap) (process_id : ℤ) (fd : UInt64) :
    (process_map.takeAndRemove process_id fd).map Prod.fst =
      process_map.getReference process_id fd := by
  rw [AuditdFimProcessMap.takeAndRemove, AuditdFimProcessMap.getReference]
  cases process_map[process_id]? with
  | none => rfl
  | some fd_map =>
      simp only [Option.bind_some, AuditdFimFdMap.takeAndRemove, Option.map_map]
      cases fd_map[fd]? <;> rfl

theorem inode_map_save_eq (inode_map : AuditdFimInodeMap) (inode : UInt64) (type : InodeType)
    (path : String) :
    inode_map.save inode type path = insertLimited 20000 inode_map inode ⟨type, path⟩ := by
  rw [AuditdFimInodeMap.save, insertLimited, limited]
  split
  · cases (inode_map.insert inode ⟨type, path⟩).minKey? <;> rfl
  · rfl

/-- The path that is kept for an inode after one was saved. -/
theorem path_save_eq_some_iff {inode_map : AuditdFimInodeMap} {inode j : UInt64}
    {type : InodeType} {path path' : String} :
    (inode_map.save inode type path)[j]?.map AuditdFimInodeDescriptor.path = some path' ↔
      ¬Displaces 20000 inode_map inode j ∧
        (if j = inode then path = path'
        else inode_map[j]?.map AuditdFimInodeDescriptor.path = some path') := by
  rw [inode_map_save_eq]
  simp only [Option.map_eq_some_iff, getElem?_insertLimited_eq_some_iff, and_assoc,
    exists_and_left, Std.ExtTreeMap.getElem?_insert, Std.LawfulEqOrd.compare_eq_iff_eq]
  by_cases hj : j = inode
  · simp [hj]
  · simp [hj, Ne.symm hj]

def handleDescriptorsSyscallRecord (fim_context : AuditdFimContext)
    (number : FileEvents.SyscallNumber) (syscall_context : SyscallContext)
    (record : AuditEventRecord) : Option Outcome :=
  let call := toSyscall number syscall_context record
  if savesDescriptor number && (openedItem fim_context call).isSome &&
      usesErased fim_context.process_map syscall_context.pid then none
  else
    some
      (.ofHandled syscall_context
        (FileEvents.auditSyscallRecordHandler normalize fim_context call))

theorem handler_of_savesDescriptor {number : FileEvents.SyscallNumber}
    (h : savesDescriptor number = true) (fim_context : AuditdFimContext)
    (syscall_context : SyscallContext) (record : AuditEventRecord) :
    FileEvents.auditSyscallRecordHandler normalize fim_context
        (toSyscall number syscall_context record) =
      handleOpenOrCreateSyscallRecord normalize fim_context
        (toSyscall number syscall_context record) syscall_context.return_value := by
  cases number <;> first | rfl | cases h

/-- A call that opens a file saves the descriptor and the path. -/
theorem handleDescriptors_of_opened {fim_context : AuditdFimContext}
    {number : FileEvents.SyscallNumber} (hsaves : savesDescriptor number = true)
    {syscall_context : SyscallContext} {record : AuditEventRecord}
    {opened : String × AuditdFimPathRecordItem}
    (hopened : openedItem fim_context (toSyscall number syscall_context record) = some opened) :
    ∃ last_operation left,
      handleDescriptorsSyscallRecord normalize fim_context number syscall_context record =
        if usesErased fim_context.process_map syscall_context.pid then none
        else some
          { fim_context :=
              ⟨fim_context.process_map.save syscall_context.return_value syscall_context.pid
                  opened.2.inode last_operation,
                fim_context.inode_map.save opened.2.inode .File
                  (normalizePath normalize opened.1 opened.2.path)⟩
            syscall_context := left } := by
  rw [handleDescriptorsSyscallRecord, handler_of_savesDescriptor normalize hsaves,
    handleOpenOrCreateSyscallRecord, hopened, hsaves]
  simp only [Option.isSome_some, Bool.true_and]
  cases usesErased fim_context.process_map syscall_context.pid with
  | true =>
      simp only [if_true]
      exact ⟨.Open, syscall_context, trivial⟩
  | false =>
      simp only [Bool.false_eq_true, if_false, Outcome.ofHandled, toSyscall]
      exact ⟨_, _, rfl⟩

/-! ### The handler of a call -/

/-- The `switch` on the number of a call. -/
def syscallHandler (fim_context : AuditdFimContext) (number : SyscallNumber)
    (syscall_context : SyscallContext) (record : AuditEventRecord) : Option Outcome :=
  match number with
  | .descriptors call =>
      handleDescriptorsSyscallRecord normalize fim_context call syscall_context record
  | .nr_link | .nr_linkat | .nr_symlink | .nr_symlinkat =>
      handleLinkAndSymlinkSyscallRecord normalize fim_context number syscall_context
  | .nr_name_to_handle_at =>
      (handleNameToHandleAtSyscallRecord normalize fim_context syscall_context).map
        fun outcome => { outcome with skip_row_emission := true }
  | .nr_rename | .nr_renameat | .nr_renameat2 =>
      some (handleRenameSyscallRecord normalize fim_context syscall_context)
  | .nr_unlink | .nr_unlinkat =>
      some (handleUnlinkSyscallRecord normalize fim_context syscall_context)
  | .nr_truncate => some (handleTruncateSyscallRecord normalize fim_context syscall_context)
  | .nr_pread64 | .nr_preadv | .nr_read | .nr_readv | .nr_write | .nr_writev | .nr_pwrite64
  | .nr_pwritev | .nr_ftruncate =>
      some (handleFileDescriptorSyscallRecord fim_context number syscall_context record)
  | .nr_mmap =>
      if syscall_context.mmap_record_present then
        some { fim_context, syscall_context, ok := false }
      else some (handleFileDescriptorSyscallRecord fim_context number syscall_context record)

def auditSyscallRecordHandler (fim_context : AuditdFimContext) (syscall_context : SyscallContext)
    (record : AuditEventRecord) : Option Outcome :=
  match getIntegerFieldFromMap16 record.fields "exit" with
  | none =>
      some
        { fim_context
          syscall_context := { syscall_context with partially := true }
          ok := false }
  | some return_value =>
      match syscallCase syscall_context.syscall_number with
      | none =>
          some
            { fim_context, syscall_context := syscall_context.returned return_value, ok := false }
      | some number =>
          syscallHandler normalize fim_context number (syscall_context.returned return_value) record

end Handlers

end Osquery.FileEvents.Monitoring
