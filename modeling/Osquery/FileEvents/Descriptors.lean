import Osquery.Core.Rows

/-!
# File descriptors of audited processes

For every process a map from descriptors to inodes is kept, so that a later read or
write can be told the path of its file. System calls that open files save a descriptor,
those that copy descriptors or processes copy the entries, and a close removes one.
Saving and copying insert into the maps, which leaves an entry that is there alone.

## Implementation notes

The calls are those that open, close and copy descriptors, with their numeric arguments
and results as given; the other fields of a record are left out, as are warnings. The
normal form of a path is an input. An item that is missing is inserted with default
values, so it is read as if it had them.
-/

namespace Osquery.FileEvents

open Core.Rows

/-- What was done with a descriptor last. -/
inductive OperationType
  | Open
  | OpenTruncate
  | Read
  | Write
  deriving DecidableEq

/-- What is known of a descriptor. -/
structure AuditdFimFdDescriptor where
  inode : UInt64
  last_operation : OperationType
  deriving DecidableEq

/-! ### The descriptors of a process -/

abbrev AuditdFimFdMap := Std.ExtTreeMap UInt64 AuditdFimFdDescriptor

namespace AuditdFimFdMap

/-- No result means that the descriptor is unknown. -/
def duplicate (data : AuditdFimFdMap) (fd new_fd : UInt64) : Option AuditdFimFdMap :=
  data[fd]?.map fun fd_desc => data.insertIfNew new_fd fd_desc

def takeAndRemove (data : AuditdFimFdMap) (fd : UInt64) :
    Option (AuditdFimFdDescriptor × AuditdFimFdMap) :=
  data[fd]?.map fun fd_desc => (fd_desc, data.erase fd)

def save (data : AuditdFimFdMap) (fd inode : UInt64) (last_operation : OperationType) :
    AuditdFimFdMap :=
  data.insertIfNew fd ⟨inode, last_operation⟩

end AuditdFimFdMap

/-! ### The processes -/

abbrev AuditdFimProcessMap := Std.ExtTreeMap ℤ AuditdFimFdMap

namespace AuditdFimProcessMap

/-- The descriptor that is known for a process. -/
def getReference (data : AuditdFimProcessMap) (process_id : ℤ) (fd : UInt64) :
    Option AuditdFimFdDescriptor :=
  data[process_id]?.bind fun fd_map => fd_map[fd]?

def duplicate (data : AuditdFimProcessMap) (process_id : ℤ) (fd new_fd : UInt64) :
    Option AuditdFimProcessMap :=
  data[process_id]?.bind fun fd_map =>
    (fd_map.duplicate fd new_fd).map fun fd_map => data.insert process_id fd_map

/-- A child gets what its parent has. -/
def clone (data : AuditdFimProcessMap) (old_pid new_pid : ℤ) : Option AuditdFimProcessMap :=
  data[old_pid]?.map fun fd_map => data.insertIfNew new_pid fd_map

def takeAndRemove (data : AuditdFimProcessMap) (process_id : ℤ) (fd : UInt64) :
    Option (AuditdFimFdDescriptor × AuditdFimProcessMap) :=
  data[process_id]?.bind fun fd_map =>
    (fd_map.takeAndRemove fd).map fun r => (r.1, data.insert process_id r.2)

/-- The first process goes when there are too many. -/
def limit (data : AuditdFimProcessMap) : AuditdFimProcessMap :=
  if data.size > 4096 then
    match data.minKey? with
    | none => data
    | some first => data.erase first
  else data

/-- A process that is removed at once does not get the descriptor. -/
def save (data : AuditdFimProcessMap) (fd : UInt64) (process_id : ℤ) (inode : UInt64)
    (last_operation : OperationType) : AuditdFimProcessMap :=
  let data := if (data[process_id]?).isSome then data else limit (data.insert process_id ∅)
  match data[process_id]? with
  | none => data
  | some fd_map => data.insert process_id (fd_map.save fd inode last_operation)

end AuditdFimProcessMap

/-! ### The inodes -/

inductive InodeType
  | File
  | Folder
  deriving DecidableEq

/-- What is known of an inode. -/
structure AuditdFimInodeDescriptor where
  type : InodeType
  path : String
  deriving DecidableEq

abbrev AuditdFimInodeMap := Std.ExtTreeMap UInt64 AuditdFimInodeDescriptor

namespace AuditdFimInodeMap

def save (data : AuditdFimInodeMap) (inode : UInt64) (type : InodeType) (path : String) :
    AuditdFimInodeMap :=
  let data := data.insert inode ⟨type, path⟩
  if data.size > 20000 then
    match data.minKey? with
    | none => data
    | some first => data.erase first
  else data

def initial : AuditdFimInodeMap := (((∅ : AuditdFimInodeMap).save 0 .File "stdin").save 1 .File
  "stdout").save 2 .File "stderr"

end AuditdFimInodeMap

structure AuditdFimContext where
  process_map : AuditdFimProcessMap := ∅
  inode_map : AuditdFimInodeMap := AuditdFimInodeMap.initial

/-! ### System calls -/

/-- The numbers of the system calls. -/
inductive SyscallNumber
  | nr_open
  | nr_openat
  | nr_open_by_handle_at
  | nr_creat
  | nr_mknod
  | nr_mknodat
  | nr_close
  | nr_dup
  | nr_dup2
  | nr_dup3
  | nr_fork
  | nr_vfork
  | nr_clone
  deriving DecidableEq

structure AuditdFimPathRecordItem where
  index : ℕ := 0
  inode : UInt64 := 0
  path : String := ""
  deriving DecidableEq

/-- The kinds of calls that are told apart in the end. -/
inductive SyscallType
  | Link
  | Open
  | OpenTruncate
  | Close
  | Dup
  | CloneOrFork
  deriving DecidableEq

inductive IOType
  | Open
  | OpenTruncate
  | Close
  deriving DecidableEq

structure AuditdFimIOData where
  target : String
  type : IOType
  state_changed : Bool
  deriving DecidableEq

/-- A system call with its arguments and its result. -/
structure Syscall where
  syscall_number : SyscallNumber
  process_id : ℤ
  cwd : String := ""
  path_record_map : Std.ExtTreeMap ℕ AuditdFimPathRecordItem := ∅
  a0 : Option UInt64 := none
  a1 : Option UInt64 := none
  a2 : Option UInt64 := none
  exit : Option UInt64 := none

def Syscall.item (call : Syscall) (index : ℕ) : AuditdFimPathRecordItem :=
  call.path_record_map.getD index {}

/-- What a handler leaves. -/
structure Handled where
  fim_context : AuditdFimContext
  type : SyscallType := .Link
  partially : Bool := false
  syscall_data : Option AuditdFimIOData := none
  ok : Bool := true
  skip_row_emission : Bool := false

/-- `static_cast<pid_t>`. -/
def toPid (n : UInt64) : ℤ := n.toUInt32.toInt32.toInt

def O_TRUNC : UInt64 := 512

section Handlers

variable (normalize : String → String)

def unquoted (s : String) : String :=
  match s.toList with
  | '"' :: rest => String.ofList rest.dropLast
  | _ => s

def normalizePath (cwd path : String) : String :=
  let translated_path := unquoted path
  if translated_path.toList.head? = some '/' then normalize translated_path
  else normalize (unquoted cwd ++ "/" ++ translated_path)

/-- Whether the flags of a call truncate the file; missing flags do. -/
def isTruncate (call : Syscall) : Bool :=
  match call.syscall_number with
  | .nr_open => call.a1.getD O_TRUNC &&& O_TRUNC != 0
  | .nr_openat | .nr_open_by_handle_at => call.a2.getD O_TRUNC &&& O_TRUNC != 0
  | _ => false

/-- The working directory and the item of the file that a call opens. -/
def openedItem (fim_context : AuditdFimContext) (call : Syscall) :
    Option (String × AuditdFimPathRecordItem) :=
  match call.syscall_number with
  | .nr_open | .nr_openat =>
      if call.path_record_map.size = 1 then some (call.cwd, call.item 0)
      else if call.path_record_map.size = 2 then some ((call.item 0).path, call.item 1)
      else if call.path_record_map.size = 3 then some (call.cwd, call.item 0)
      else none
  | .nr_open_by_handle_at =>
      if call.path_record_map.size = 1 then
        fim_context.inode_map[(call.item 0).inode]?.map fun _ => (call.cwd, call.item 0)
      else none
  | _ =>
      if call.path_record_map.size = 2 then some ((call.item 0).path, call.item 1) else none

def handleOpenOrCreateSyscallRecord (fim_context : AuditdFimContext) (call : Syscall)
    (return_value : UInt64) : Handled :=
  let is_truncate := isTruncate call
  let type := if is_truncate then SyscallType.OpenTruncate else .Open
  match openedItem fim_context call with
  | none => { fim_context, type, partially := true, ok := false }
  | some (input_path_working_dir, item) =>
      let normalized_path := normalizePath normalize input_path_working_dir item.path
      { fim_context :=
          { process_map := fim_context.process_map.save return_value call.process_id item.inode
              (if is_truncate then .OpenTruncate else .Open)
            inode_map := fim_context.inode_map.save item.inode .File normalized_path }
        type
        syscall_data := some
          ⟨normalized_path, if is_truncate then .OpenTruncate else .Open, true⟩ }

def handleDupSyscallRecord (fim_context : AuditdFimContext) (call : Syscall)
    (return_value : UInt64) : Handled :=
  match call.a0 with
  | none => { fim_context, type := .Dup, partially := true, ok := false }
  | some fd =>
      match fim_context.process_map.duplicate call.process_id fd return_value with
      | none => { fim_context, type := .Dup, partially := true, ok := false }
      | some process_map => { fim_context := { fim_context with process_map }, type := .Dup }

def handleCloseSyscallRecord (fim_context : AuditdFimContext) (call : Syscall) : Handled :=
  match call.a0 with
  | none => { fim_context, type := .Close, partially := true, ok := false }
  | some fd =>
      match fim_context.process_map.takeAndRemove call.process_id fd with
      | none => { fim_context, type := .Close, partially := true, ok := false }
      | some (fd_desc, process_map) =>
          match fim_context.inode_map[fd_desc.inode]? with
          | none =>
              { fim_context := { fim_context with process_map }
                type := .Close
                partially := true }
          | some ino_desc =>
              { fim_context := { fim_context with process_map }
                type := .Close
                syscall_data := some ⟨ino_desc.path, .Close, true⟩ }

def auditSyscallRecordHandler (fim_context : AuditdFimContext) (call : Syscall) : Handled :=
  match call.exit with
  | none => { fim_context, partially := true, ok := false }
  | some return_value =>
      match call.syscall_number with
      | .nr_fork | .nr_vfork | .nr_clone =>
          match fim_context.process_map.clone call.process_id (toPid return_value) with
          | none => { fim_context, type := .CloneOrFork, ok := false, skip_row_emission := true }
          | some process_map =>
              { fim_context := { fim_context with process_map }
                type := .CloneOrFork
                skip_row_emission := true }
      | .nr_creat | .nr_mknod | .nr_mknodat | .nr_open | .nr_openat | .nr_open_by_handle_at =>
          handleOpenOrCreateSyscallRecord normalize fim_context call return_value
      | .nr_close => handleCloseSyscallRecord fim_context call
      | .nr_dup | .nr_dup2 | .nr_dup3 =>
          { handleDupSyscallRecord fim_context call return_value with skip_row_emission := true }

end Handlers

end Osquery.FileEvents
