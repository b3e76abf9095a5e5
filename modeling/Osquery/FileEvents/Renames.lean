import Osquery.FileEvents.Attribution

/-!
# Renames of files that are tracked

Beside the maps there is, for every inode that was renamed, the destination of its latest
rename. The handler of a rename saves the path that was kept before, under the inode of the
fourth item, which is the overwritten file when there are five items. So the destination is
followed when it is the path that was kept, and nothing else is saved for the inode later.

## Implementation notes

The destinations are not part of the maps and no handler reads them. An inode is renamed by a
`rename` that is handled while a path is kept for it.
-/

namespace Osquery.FileEvents.Monitoring

open EventPublishers AuditTables Foundation.Numeral Foundation.Hexadecimal
open Foundation.LimitedMaps Foundation.PartialRuns Foundation.DescriptorTables

/-- The maps, and the destination of every inode that was renamed. -/
structure Followed where
  fim_context : AuditdFimContext := {}
  destination : UInt64 → Option String := fun _ => none

def isRename : SyscallNumber → Bool
  | .nr_rename | .nr_renameat | .nr_renameat2 => true
  | _ => false

section Definitions

variable (unhex : String → Option String) (normalize : String → String) (unassigned : UInt32)

/-- The call of an event that is handled, with its context and the record of its arguments. -/
def callOf (event : AuditEvent) : Option (SyscallNumber × SyscallContext × AuditEventRecord) :=
  match readEvent unhex unassigned event with
  | some (some (syscall_context, record)) =>
      (getIntegerFieldFromMap16 record.fields "exit").bind fun return_value =>
        (syscallCase syscall_context.syscall_number).map fun number =>
          (number, syscall_context.returned return_value, record)
  | _ => none

/-- The renamed inode and the destination, after the items of a call. -/
def renameOf (number : SyscallNumber) (syscall_context : SyscallContext) :
    Option (UInt64 × String) :=
  if isRename number then
    (renameDestination syscall_context).map fun index =>
      ((syscall_context.item 2).inode,
        normalizePath normalize (syscall_context.item 1).path (syscall_context.item index).path)
  else none

/-- The destinations after a call: a new one for a tracked inode that is renamed. -/
def Followed.noteRename (s : Followed) (number : SyscallNumber)
    (syscall_context : SyscallContext) : UInt64 → Option String :=
  match renameOf normalize number syscall_context with
  | none => s.destination
  | some (inode, destination) =>
      if (s.fim_context.inode_map[inode]?).isSome then
        Function.update s.destination inode (some destination)
      else s.destination

def Followed.next (s : Followed) (event : AuditEvent) : Option Followed :=
  (contextAfter unhex normalize unassigned s.fim_context event).map fun fim_context =>
    { fim_context
      destination :=
        match callOf unhex unassigned event with
        | none => s.destination
        | some (number, syscall_context, _) => s.noteRename normalize number syscall_context }

/-- The call of the event is one on a descriptor of the inode. -/
def NamesInode (fim_context : AuditdFimContext) (inode : UInt64) (event : AuditEvent) : Prop :=
  ∃ number syscall_context record fd fd_desc,
    callOf unhex unassigned event = some (number, syscall_context, record) ∧
      (UsesDescriptor number ∨ number = .descriptors .nr_close) ∧
        descriptorOf number syscall_context record = some fd ∧
          fim_context.process_map.getReference syscall_context.pid fd = some fd_desc ∧
            fd_desc.inode = inode

end Definitions

/-! ### What keeps the destinations -/

/-- A path that is saved for an inode is its destination, if it has one, and makes no entry go of
an inode that has one. -/
structure Keeps (inode_map : AuditdFimInodeMap) (destination : UInt64 → Option String)
    (inode : UInt64) (path : String) : Prop where
  path_eq : ∀ d, destination inode = some d → path = d
  room : ∀ j d, destination j = some d → ¬Displaces 20000 inode_map inode j

/-- What a call needs of its items and of the maps. -/
def FollowsCall (normalize : String → String) (s : Followed) (syscall_context : SyscallContext)
    (record : AuditEventRecord) (number : SyscallNumber) : Prop :=
  match number with
  | .descriptors call =>
      savesDescriptor call → ∀ opened,
        openedItem s.fim_context (toSyscall call syscall_context record) = some opened →
          Keeps s.fim_context.inode_map s.destination opened.2.inode
            (normalizePath normalize opened.1 opened.2.path)
  | .nr_rename | .nr_renameat | .nr_renameat2 =>
      ∀ index ino_desc, renameDestination syscall_context = some index →
        s.fim_context.inode_map[(syscall_context.item 2).inode]? = some ino_desc →
          (syscall_context.item 3).inode = (syscall_context.item 2).inode ∧
            ino_desc.path = normalizePath normalize (syscall_context.item 1).path
              (syscall_context.item index).path
  | .nr_unlink | .nr_unlinkat =>
      syscall_context.path_record_map.size = 2 →
        s.destination (syscall_context.item 1).inode = none
  | .nr_link | .nr_linkat | .nr_symlink | .nr_symlinkat =>
      syscall_context.path_record_map.size = 3 →
        Keeps s.fim_context.inode_map s.destination
            (linkSource number syscall_context)
            (normalizePath normalize syscall_context.cwd (syscall_context.item 0).path) ∧
          ∀ type, Keeps
            (s.fim_context.inode_map.save (linkSource number syscall_context) type
              (normalizePath normalize syscall_context.cwd (syscall_context.item 0).path))
            s.destination (syscall_context.item 2).inode
            (normalizePath normalize (syscall_context.item 1).path (syscall_context.item 2).path)
  | .nr_name_to_handle_at | .nr_truncate =>
      syscall_context.path_record_map.size = 1 →
        Keeps s.fim_context.inode_map s.destination (syscall_context.item 0).inode
          (normalizePath normalize syscall_context.cwd (syscall_context.item 0).path)
  | .nr_mmap => syscall_context.mmap_record_present = false
  | _ => True

/-- Every inode with a destination has it as its path, and there are not too many inodes. -/
structure Tracked (inode_map : AuditdFimInodeMap) (destination : UInt64 → Option String) :
    Prop where
  size_le : inode_map.size ≤ 20000
  path : ∀ inode d, destination inode = some d →
    inode_map[inode]?.map AuditdFimInodeDescriptor.path = some d

section Changes

variable {inode_map : AuditdFimInodeMap} {destination : UInt64 → Option String}

theorem Tracked.save (h : Tracked inode_map destination) {inode : UInt64} {path : String}
    (hkeeps : Keeps inode_map destination inode path) (type : InodeType) :
    Tracked (inode_map.save inode type path) destination where
  size_le := by
    rw [inode_map_save_eq]
    exact size_insertLimited_le h.size_le inode _
  path := by
    intro j d hd
    rw [path_save_eq_some_iff, and_iff_right (hkeeps.room j d hd)]
    split
    · next hj => exact hkeeps.path_eq d (hj ▸ hd)
    · exact h.path j d hd

theorem Tracked.erase (h : Tracked inode_map destination) {inode : UInt64}
    (hnone : destination inode = none) : Tracked (inode_map.erase inode) destination where
  size_le := Std.ExtTreeMap.size_erase_le.trans h.size_le
  path := by
    intro j d hd
    have hj : ¬compare inode j = .eq := by
      rw [Std.LawfulEqOrd.compare_eq_iff_eq]
      rintro rfl
      rw [hnone] at hd
      cases hd
    rw [Std.ExtTreeMap.getElem?_erase, if_neg hj]
    exact h.path j d hd

theorem size_erase_lt (hsize : inode_map.size ≤ 20000) {inode : UInt64}
    {ino_desc : AuditdFimInodeDescriptor} (hinode : inode_map[inode]? = some ino_desc) :
    (inode_map.erase inode).size < 20000 := by
  have hmem : inode ∈ inode_map := Std.ExtTreeMap.mem_iff_isSome_getElem?.mpr (by simp [hinode])
  rw [Std.ExtTreeMap.size_erase, if_pos (Std.ExtTreeMap.contains_iff_mem.mpr hmem)]
  omega

/-- After the old path of a renamed inode was saved for an inode `j`, the path that is kept for the
renamed inode is the old one when it is `j`, and none otherwise. -/
theorem path_rename_iff (hsize : inode_map.size ≤ 20000) {inode : UInt64}
    {ino_desc : AuditdFimInodeDescriptor} (hinode : inode_map[inode]? = some ino_desc)
    {j : UInt64} {d : String} :
    (AuditdFimInodeMap.save (inode_map.erase inode) j ino_desc.type ino_desc.path)[inode]?.map
        AuditdFimInodeDescriptor.path = some d ↔
      j = inode ∧ ino_desc.path = d := by
  have hroom := not_displaces (k := j) (Or.inr (size_erase_lt hsize hinode)) inode
  rw [path_save_eq_some_iff, and_iff_right hroom]
  by_cases hj : inode = j
  · simp [hj]
  · simp [hj, Ne.symm hj]

/-- A rename keeps the destinations when it saves the path of the inode again, and this is the new
destination. -/
theorem Tracked.rename (h : Tracked inode_map destination) {inode : UInt64}
    {ino_desc : AuditdFimInodeDescriptor} (hinode : inode_map[inode]? = some ino_desc) :
    Tracked (AuditdFimInodeMap.save (inode_map.erase inode) inode ino_desc.type ino_desc.path)
      (Function.update destination inode (some ino_desc.path)) where
  size_le := by
    rw [inode_map_save_eq]
    exact size_insertLimited_le (size_erase_lt h.size_le hinode).le inode _
  path := by
    intro j d hd
    by_cases hj : j = inode
    · subst hj
      rw [Function.update_self] at hd
      exact (path_rename_iff h.size_le hinode).mpr ⟨rfl, Option.some.inj hd⟩
    · have hroom := not_displaces (k := inode) (Or.inr (size_erase_lt h.size_le hinode)) j
      rw [Function.update_of_ne hj] at hd
      rw [path_save_eq_some_iff, and_iff_right hroom, if_neg hj, Std.ExtTreeMap.getElem?_erase,
        if_neg]
      · exact h.path j d hd
      · rw [Std.LawfulEqOrd.compare_eq_iff_eq]
        exact Ne.symm hj

end Changes

/-! ### Calls -/

section Calls

variable {normalize : String → String} {s : Followed} {syscall_context : SyscallContext}
  {record : AuditEventRecord} {outcome : Outcome}

theorem noteRename_of_not_rename {number : SyscallNumber} (h : isRename number = false) :
    s.noteRename normalize number syscall_context = s.destination := by
  rw [Followed.noteRename, renameOf, h]
  rfl

theorem tracked_rename {number : SyscallNumber} (hnumber : isRename number = true)
    (h : Tracked s.fim_context.inode_map s.destination)
    (hfollows : ∀ index ino_desc, renameDestination syscall_context = some index →
      s.fim_context.inode_map[(syscall_context.item 2).inode]? = some ino_desc →
        (syscall_context.item 3).inode = (syscall_context.item 2).inode ∧
          ino_desc.path = normalizePath normalize (syscall_context.item 1).path
            (syscall_context.item index).path) :
    Tracked
      (handleRenameSyscallRecord normalize s.fim_context
        syscall_context).fim_context.inode_map
      (s.noteRename normalize number syscall_context) := by
  rw [handleRenameSyscallRecord, Followed.noteRename, renameOf, if_pos hnumber]
  cases hindex : renameDestination syscall_context with
  | none => exact h
  | some index =>
      dsimp only [Option.map_some]
      cases hinode : s.fim_context.inode_map[(syscall_context.item 2).inode]? with
      | none => exact h
      | some ino_desc =>
          obtain ⟨hitem, hpath⟩ := hfollows index ino_desc hindex hinode
          simp only [Option.isSome_some, if_true]
          rw [hitem, ← hpath]
          exact h.rename hinode

theorem tracked_unlink (h : Tracked s.fim_context.inode_map s.destination)
    (hfollows : syscall_context.path_record_map.size = 2 →
      s.destination (syscall_context.item 1).inode = none) :
    Tracked
      (handleUnlinkSyscallRecord normalize s.fim_context syscall_context).fim_context.inode_map
      s.destination := by
  rw [handleUnlinkSyscallRecord]
  dsimp only
  split
  · exact h
  · next hsize => exact h.erase (hfollows (not_not.mp hsize))

theorem tracked_truncate (h : Tracked s.fim_context.inode_map s.destination)
    (hfollows : syscall_context.path_record_map.size = 1 →
      Keeps s.fim_context.inode_map s.destination (syscall_context.item 0).inode
        (normalizePath normalize syscall_context.cwd (syscall_context.item 0).path)) :
    Tracked
      (handleTruncateSyscallRecord normalize s.fim_context syscall_context).fim_context.inode_map
      s.destination := by
  rw [handleTruncateSyscallRecord]
  dsimp only
  split
  · exact h
  · next hsize => exact h.save (hfollows (not_not.mp hsize)) .File

theorem tracked_nameToHandleAt (h : Tracked s.fim_context.inode_map s.destination)
    (hfollows : syscall_context.path_record_map.size = 1 →
      Keeps s.fim_context.inode_map s.destination (syscall_context.item 0).inode
        (normalizePath normalize syscall_context.cwd (syscall_context.item 0).path))
    (houtcome : handleNameToHandleAtSyscallRecord normalize s.fim_context syscall_context =
      some outcome) : Tracked outcome.fim_context.inode_map s.destination := by
  rw [handleNameToHandleAtSyscallRecord] at houtcome
  dsimp only at houtcome
  split at houtcome
  · obtain rfl := Option.some.inj houtcome
    exact h
  · next hsize =>
      obtain ⟨type, -, rfl⟩ := Option.map_eq_some_iff.mp houtcome
      exact h.save (hfollows (not_not.mp hsize)) type

theorem tracked_link {number : SyscallNumber} (h : Tracked s.fim_context.inode_map s.destination)
    (hfollows : syscall_context.path_record_map.size = 3 →
      Keeps s.fim_context.inode_map s.destination (linkSource number syscall_context)
          (normalizePath normalize syscall_context.cwd (syscall_context.item 0).path) ∧
        ∀ type, Keeps
          (s.fim_context.inode_map.save (linkSource number syscall_context) type
            (normalizePath normalize syscall_context.cwd (syscall_context.item 0).path))
          s.destination (syscall_context.item 2).inode
          (normalizePath normalize (syscall_context.item 1).path (syscall_context.item 2).path))
    (houtcome : handleLinkAndSymlinkSyscallRecord normalize s.fim_context number syscall_context =
      some outcome) : Tracked outcome.fim_context.inode_map s.destination := by
  rw [handleLinkAndSymlinkSyscallRecord] at houtcome
  dsimp only at houtcome
  split at houtcome
  · obtain rfl := Option.some.inj houtcome
    exact h
  · next hsize =>
      obtain ⟨hsource, hdestination⟩ := hfollows (not_not.mp hsize)
      obtain ⟨type, -, rfl⟩ := Option.map_eq_some_iff.mp houtcome
      exact (h.save hsource type).save (hdestination type) .File

/-- A call that opens no file leaves the paths alone. -/
theorem inode_map_of_not_saves {number : FileEvents.SyscallNumber}
    (hsaves : savesDescriptor number = false) (fim_context : AuditdFimContext)
    (syscall_context : SyscallContext) (record : AuditEventRecord) :
    (FileEvents.auditSyscallRecordHandler normalize fim_context
      (toSyscall number syscall_context record)).fim_context.inode_map =
        fim_context.inode_map := by
  cases number with
  | nr_open | nr_openat | nr_open_by_handle_at | nr_creat | nr_mknod | nr_mknodat => cases hsaves
  | nr_clone | nr_fork | nr_vfork =>
      simp only [FileEvents.auditSyscallRecordHandler, toSyscall]
      split
      · rfl
      · rfl
  | nr_dup | nr_dup2 | nr_dup3 =>
      simp only [FileEvents.auditSyscallRecordHandler, toSyscall, handleDupSyscallRecord]
      split
      · rfl
      · split
        · rfl
        · rfl
  | nr_close =>
      simp only [FileEvents.auditSyscallRecordHandler, toSyscall, handleCloseSyscallRecord]
      split
      · rfl
      · split
        · rfl
        · split
          · rfl
          · rfl

theorem tracked_descriptors {number : FileEvents.SyscallNumber}
    (h : Tracked s.fim_context.inode_map s.destination)
    (hfollows : savesDescriptor number → ∀ opened,
      openedItem s.fim_context (toSyscall number syscall_context record) = some opened →
        Keeps s.fim_context.inode_map s.destination opened.2.inode
          (normalizePath normalize opened.1 opened.2.path))
    (houtcome : handleDescriptorsSyscallRecord normalize s.fim_context number syscall_context
      record = some outcome) : Tracked outcome.fim_context.inode_map s.destination := by
  cases hsaves : savesDescriptor number with
  | false =>
      rw [handleDescriptorsSyscallRecord, hsaves] at houtcome
      obtain rfl := Option.some.inj houtcome
      change Tracked (FileEvents.auditSyscallRecordHandler normalize s.fim_context
        (toSyscall number syscall_context record)).fim_context.inode_map s.destination
      rw [inode_map_of_not_saves hsaves]
      exact h
  | true =>
      cases hopened : openedItem s.fim_context (toSyscall number syscall_context record) with
      | none =>
          rw [handleDescriptorsSyscallRecord, hsaves, hopened,
            handler_of_savesDescriptor normalize hsaves, handleOpenOrCreateSyscallRecord,
            hopened] at houtcome
          obtain rfl := Option.some.inj houtcome
          exact h
      | some opened =>
          obtain ⟨last_operation, left, hhandle⟩ :=
            handleDescriptors_of_opened normalize hsaves hopened
          rw [hhandle] at houtcome
          split at houtcome
          · cases houtcome
          · obtain rfl := Option.some.inj houtcome
            exact h.save (hfollows hsaves opened hopened) .File

/-- A call that needs nothing more keeps the destinations. -/
theorem tracked_syscallHandler {number : SyscallNumber}
    (h : Tracked s.fim_context.inode_map s.destination)
    (hfollows : FollowsCall normalize s syscall_context record number)
    (houtcome : syscallHandler normalize s.fim_context number syscall_context record =
      some outcome) :
    Tracked outcome.fim_context.inode_map (s.noteRename normalize number syscall_context) := by
  cases number with
  | nr_rename | nr_renameat | nr_renameat2 =>
      obtain rfl := Option.some.inj houtcome
      exact tracked_rename rfl h hfollows
  | descriptors call =>
      rw [noteRename_of_not_rename rfl]
      exact tracked_descriptors h hfollows houtcome
  | nr_unlink | nr_unlinkat =>
      rw [noteRename_of_not_rename rfl]
      obtain rfl := Option.some.inj houtcome
      exact tracked_unlink h hfollows
  | nr_link | nr_linkat | nr_symlink | nr_symlinkat =>
      rw [noteRename_of_not_rename rfl]
      exact tracked_link h hfollows houtcome
  | nr_name_to_handle_at =>
      rw [noteRename_of_not_rename rfl]
      obtain ⟨found, hfound, rfl⟩ := Option.map_eq_some_iff.mp houtcome
      have htracked := tracked_nameToHandleAt h hfollows hfound
      exact htracked
  | nr_truncate =>
      rw [noteRename_of_not_rename rfl]
      obtain rfl := Option.some.inj houtcome
      exact tracked_truncate h hfollows
  | nr_pread64 | nr_preadv | nr_read | nr_readv | nr_write | nr_writev | nr_pwrite64 | nr_pwritev
  | nr_ftruncate =>
      rw [noteRename_of_not_rename rfl]
      obtain rfl := Option.some.inj houtcome
      rw [inode_map_fileDescriptor]
      exact h
  | nr_mmap =>
      rw [noteRename_of_not_rename rfl]
      rw [syscallHandler] at houtcome
      split at houtcome
      · obtain rfl := Option.some.inj houtcome
        exact h
      · obtain rfl := Option.some.inj houtcome
        rw [inode_map_fileDescriptor]
        exact h

end Calls

/-! ### Events -/

section Events

variable {unhex : String → Option String} {normalize : String → String} {unassigned : UInt32}
  {event : AuditEvent}

theorem handleEvent_of_call {number : SyscallNumber} {syscall_context : SyscallContext}
    {record : AuditEventRecord}
    (h : callOf unhex unassigned event = some (number, syscall_context, record))
    (fim_context : AuditdFimContext) :
    handleEvent unhex normalize unassigned fim_context event =
      (syscallHandler normalize fim_context number syscall_context record).map some := by
  rw [callOf] at h
  split at h
  · next context call hread =>
      obtain ⟨return_value, hexit, h⟩ := Option.bind_eq_some_iff.mp h
      obtain ⟨found, hcase, hcall⟩ := Option.map_eq_some_iff.mp h
      obtain ⟨rfl, hpair⟩ := Prod.mk.inj hcall
      obtain ⟨rfl, rfl⟩ := Prod.mk.inj hpair
      rw [handleEvent, hread]
      dsimp only
      rw [auditSyscallRecordHandler, hexit]
      dsimp only
      rw [hcase]
  · cases h

/-- An event without a call that is handled changes nothing. -/
theorem eq_of_no_call (h : callOf unhex unassigned event = none)
    {fim_context after : AuditdFimContext}
    (hafter : contextAfter unhex normalize unassigned fim_context event = some after) :
    after = fim_context := by
  rw [contextAfter, handleEvent] at hafter
  rw [callOf] at h
  cases hread : readEvent unhex unassigned event with
  | none =>
      rw [hread] at hafter
      cases hafter
  | some call =>
      cases call with
      | none =>
          rw [hread] at hafter
          exact (Option.some.inj hafter).symm
      | some call =>
          obtain ⟨syscall_context, record⟩ := call
          rw [hread] at hafter h
          dsimp only at hafter h
          rw [auditSyscallRecordHandler] at hafter
          cases hexit : getIntegerFieldFromMap16 record.fields "exit" with
          | none =>
              rw [hexit] at hafter
              exact (Option.some.inj hafter).symm
          | some return_value =>
              rw [hexit] at hafter h
              rw [Option.bind_some, Option.map_eq_none_iff] at h
              rw [h] at hafter
              exact (Option.some.inj hafter).symm

theorem syscall_data_of_call {number : SyscallNumber} {syscall_context : SyscallContext}
    {record : AuditEventRecord}
    (h : callOf unhex unassigned event = some (number, syscall_context, record)) :
    syscall_context.syscall_data = .src_dest {} := by
  rw [callOf] at h
  split at h
  · next context call hread =>
      obtain ⟨event_data, -, hfor⟩ := readFor_readEvent hread
      obtain ⟨return_value, -, h⟩ := Option.bind_eq_some_iff.mp h
      obtain ⟨found, -, hcall⟩ := Option.map_eq_some_iff.mp h
      obtain ⟨rfl, hpair⟩ := Prod.mk.inj hcall
      obtain ⟨rfl, rfl⟩ := Prod.mk.inj hpair
      exact hfor.syscall_data
  · cases h

variable (normalize) in
/-- A descriptor that is closed is given the path of its inode. -/
theorem handleDescriptors_close {fim_context : AuditdFimContext} {syscall_context : SyscallContext}
    {record : AuditEventRecord} {fd : UInt64} {fd_desc : AuditdFimFdDescriptor}
    (hfd : descriptorOf (.descriptors .nr_close) syscall_context record = some fd)
    (hdesc : fim_context.process_map.getReference syscall_context.pid fd = some fd_desc)
    {ino_desc : AuditdFimInodeDescriptor}
    (hinode : fim_context.inode_map[fd_desc.inode]? = some ino_desc) :
    ∃ outcome,
      handleDescriptorsSyscallRecord normalize fim_context .nr_close syscall_context record =
          some outcome ∧
        outcome.ok = true ∧
          outcome.syscall_context.syscall_data = .io ⟨ino_desc.path, .Close, true⟩ := by
  have ha0 : getIntegerFieldFromMap16 record.fields "a0" = some fd := hfd
  obtain ⟨process_map, htake⟩ : ∃ process_map,
      fim_context.process_map.takeAndRemove syscall_context.pid fd =
        some (fd_desc, process_map) := by
    rw [← takeAndRemove_fst] at hdesc
    obtain ⟨⟨_, process_map⟩, htaken, rfl⟩ := Option.map_eq_some_iff.mp hdesc
    exact ⟨process_map, htaken⟩
  refine ⟨_, rfl, ?_⟩
  simp only [FileEvents.auditSyscallRecordHandler, toSyscall, handleCloseSyscallRecord, ha0, htake,
    hinode, Outcome.ofHandled]
  exact ⟨trivial, rfl⟩

variable (unhex normalize unassigned) in
/-- What an event needs so that the destinations are kept. -/
def Follows (s : Followed) (event : AuditEvent) : Prop :=
  ∀ number syscall_context record,
    callOf unhex unassigned event = some (number, syscall_context, record) →
      FollowsCall normalize s syscall_context record number

theorem tracked_next {s s' : Followed} (h : Tracked s.fim_context.inode_map s.destination)
    (hfollows : Follows unhex normalize unassigned s event)
    (hnext : s.next unhex normalize unassigned event = some s') :
    Tracked s'.fim_context.inode_map s'.destination := by
  obtain ⟨after, hafter, rfl⟩ := Option.map_eq_some_iff.mp hnext
  cases hcall : callOf unhex unassigned event with
  | none =>
      obtain rfl := eq_of_no_call hcall hafter
      exact h
  | some call =>
      obtain ⟨number, syscall_context, record⟩ := call
      rw [contextAfter, handleEvent_of_call hcall, Option.map_map] at hafter
      obtain ⟨outcome, houtcome, rfl⟩ := Option.map_eq_some_iff.mp hafter
      exact tracked_syscallHandler h (hfollows number syscall_context record hcall) houtcome

/-- An event on a descriptor of a tracked inode is given its destination. -/
theorem reported_of_tracked {s : Followed} (h : Tracked s.fim_context.inode_map s.destination)
    (hfollows : Follows unhex normalize unassigned s event) {inode : UInt64} {d : String}
    (hd : s.destination inode = some d)
    (hnames : NamesInode unhex unassigned s.fim_context inode event) :
    Reported unhex normalize unassigned s.fim_context event d := by
  obtain ⟨number, syscall_context, record, fd, fd_desc, hcall, hnumber, hfd, hdesc, rfl⟩ := hnames
  have hpath := h.path fd_desc.inode d hd
  rw [Reported, handleEvent_of_call hcall]
  obtain huses | rfl := hnumber
  · have hhandle : syscallHandler normalize s.fim_context number syscall_context record =
        some (handleFileDescriptorSyscallRecord s.fim_context number syscall_context record) := by
      by_cases hmapping : number = .nr_mmap
      · subst hmapping
        have hpresent : syscall_context.mmap_record_present = false :=
          hfollows .nr_mmap syscall_context record hcall
        rw [syscallHandler, hpresent]
        rfl
      · exact syscallHandler_of_uses huses hmapping s.fim_context syscall_context record
    obtain ⟨type, state_changed, hok, hdata⟩ :=
      (fileDescriptor_data_iff (syscall_data_of_call hcall) hfd d).mpr ⟨fd_desc, hdesc, hpath⟩
    exact ⟨_, type, state_changed, by rw [hhandle]; rfl, hok, hdata⟩
  · obtain ⟨ino_desc, hinode, rfl⟩ := Option.map_eq_some_iff.mp hpath
    obtain ⟨outcome, houtcome, hok, hdata⟩ := handleDescriptors_close normalize hfd hdesc hinode
    exact ⟨outcome, .Close, true, by rw [syscallHandler, houtcome]; rfl, hok, hdata⟩

end Events

/-! ### Runs -/

section Runs

variable {unhex : String → Option String} {normalize : String → String} {unassigned : UInt32}

theorem tracked_initial : Tracked AuditdFimInodeMap.initial fun _ => none where
  size_le := by decide +kernel
  path := by
    intro inode d hd
    cases hd

/-- In a run whose events save nothing but its destination for a renamed inode, every event on a
descriptor of such an inode is given the destination of its latest rename. -/
theorem renames_followed {events : List AuditEvent}
    (hfollows : ∀ seen event rest, events = seen ++ event :: rest →
      ∀ s, seen.foldlM (Followed.next unhex normalize unassigned) {} = some s →
        Follows unhex normalize unassigned s event) :
    ∀ seen event rest, events = seen ++ event :: rest →
      ∀ s, seen.foldlM (Followed.next unhex normalize unassigned) {} = some s →
        ∀ inode d, s.destination inode = some d →
          NamesInode unhex unassigned s.fim_context inode event →
            Reported unhex normalize unassigned s.fim_context event d := by
  intro seen event rest hevents s hs inode d hd hnames
  have hseen : ∀ seen' event' rest', seen = seen' ++ event' :: rest' →
      ∀ s, seen'.foldlM (Followed.next unhex normalize unassigned) {} = some s →
        Follows unhex normalize unassigned s event' := by
    rintro seen' event' rest' rfl
    exact hfollows seen' event' (rest' ++ event :: rest) (by simpa using hevents)
  have htracked : Tracked s.fim_context.inode_map s.destination :=
    good_of_safe (fun s event s' h hsafe hnext => tracked_next h hsafe hnext) tracked_initial
      hseen hs
  exact reported_of_tracked htracked (hfollows seen event rest hevents s hs) hd hnames

end Runs

/-! ### A file that is renamed while it is open -/

/-- A file in `/tmp` is renamed. -/
def renameEvent (inode : ℕ) (source destination : String) : AuditEvent :=
  syscallEvent 82 [("exit", "0")]
    [pathRecord 0 2 "/tmp", pathRecord 1 2 "/tmp", pathRecord 2 inode source,
      pathRecord 3 inode destination]

/-- What the records of `renameEvent` are read into. -/
def renameContext (inode : ℕ) (source destination : String) : SyscallContext :=
  { initialContext 0 (callData 82) with
    path_record_map :=
      ((((∅ : Std.ExtTreeMap ℕ AuditdFimPathRecordItem).insert 0
        { index := 0, inode := 2, path := "/tmp" }).insert 1
          { index := 1, inode := 2, path := "/tmp" }).insert 2
            { index := 2, inode := UInt64.ofNat inode, path := source }).insert 3
              { index := 3, inode := UInt64.ofNat inode, path := destination } }

theorem callOf_open :
    callOf decodeText 0 (openEvent 3 100 "/tmp/a") =
      some (.descriptors .nr_open, (openContext 100 "/tmp/a").returned 3,
        auditRecord AUDIT_SYSCALL [("a1", "1"), ("exit", "3")]) := by
  decide +kernel

theorem callOf_rename :
    callOf decodeText 0 (renameEvent 100 "/tmp/a" "/tmp/a") =
      some (.nr_rename, renameContext 100 "/tmp/a" "/tmp/a",
        auditRecord AUDIT_SYSCALL [("exit", "0")]) := by
  decide +kernel

theorem callOf_write :
    callOf decodeText 0 (writeEvent 3) =
      some (.nr_write, (initialContext 0 (callData 1)).returned 1,
        auditRecord AUDIT_SYSCALL [("a0", "3"), ("exit", "1")]) := by
  decide +kernel

theorem keeps_of_no_destination (inode_map : AuditdFimInodeMap) (inode : UInt64) (path : String) :
    Keeps inode_map (fun _ => none) inode path where
  path_eq := by
    intro d hd
    cases hd
  room := by
    intro j d hd
    cases hd

/-- What is reached after the file was opened and renamed. -/
theorem reached_after_rename (source destination : String)
    (hreached : (List.foldlM (Followed.next decodeText id 0) {}
      [openEvent 3 100 "/tmp/a", renameEvent 100 source destination]).map (fun s =>
        (s.destination 100, s.fim_context.process_map.getReference 7 3)) =
      some (some destination, some ⟨100, .Open⟩)) :
    ∃ s, List.foldlM (Followed.next decodeText id 0) {}
        [openEvent 3 100 "/tmp/a", renameEvent 100 source destination] = some s ∧
      s.destination 100 = some destination ∧
        NamesInode decodeText 0 s.fim_context 100 (writeEvent 3) := by
  obtain ⟨s, hs, hvalues⟩ := Option.map_eq_some_iff.mp hreached
  obtain ⟨hdestination, hdesc⟩ := Prod.mk.inj hvalues
  exact ⟨s, hs, hdestination, .nr_write, _, _, 3, _, callOf_write, Or.inl trivial, rfl, hdesc, rfl⟩

/-- A tracked file is renamed to its own path, and then written. -/
theorem renames_followed_same_path :
    ∃ s, List.foldlM (Followed.next decodeText id 0) {}
        [openEvent 3 100 "/tmp/a", renameEvent 100 "/tmp/a" "/tmp/a"] = some s ∧
      Reported decodeText id 0 s.fim_context (writeEvent 3) "/tmp/a" := by
  obtain ⟨s, hs, hdestination, hnames⟩ :=
    reached_after_rename "/tmp/a" "/tmp/a" (by decide +kernel)
  refine ⟨s, hs, @renames_followed decodeText id 0
    [openEvent 3 100 "/tmp/a", renameEvent 100 "/tmp/a" "/tmp/a", writeEvent 3] ?_ _ _ [] rfl s hs
    100 "/tmp/a" hdestination hnames⟩
  simp only [forall_split_cons]
  refine ⟨?_, ?_, ?_, by simp⟩
  · rintro s hs number syscall_context record hcall
    obtain rfl : {} = s := Option.some.inj hs
    rw [callOf_open] at hcall
    obtain ⟨rfl, hpair⟩ := Prod.mk.inj (Option.some.inj hcall)
    intro _ opened _
    exact keeps_of_no_destination _ _ _
  · rintro s hs number syscall_context record hcall
    rw [callOf_rename] at hcall
    obtain ⟨rfl, hpair⟩ := Prod.mk.inj (Option.some.inj hcall)
    obtain ⟨rfl, rfl⟩ := Prod.mk.inj hpair
    intro index ino_desc hindex hinode
    obtain rfl : 3 = index := Option.some.inj hindex
    have hkept : (List.foldlM (Followed.next decodeText id 0) {}
        [openEvent 3 100 "/tmp/a"]).map (fun s => s.fim_context.inode_map[(100 : UInt64)]?) =
          some (some ⟨.File, "/tmp/a"⟩) := by
      decide +kernel
    rw [hs, Option.map_some] at hkept
    obtain rfl := Option.some.inj (hinode.symm.trans (Option.some.inj hkept))
    exact ⟨rfl, rfl⟩
  · rintro s hs number syscall_context record hcall
    rw [callOf_write] at hcall
    obtain ⟨rfl, hpair⟩ := Prod.mk.inj (Option.some.inj hcall)
    trivial

/-- A write after the rename is given the old path. -/
theorem renamed_file_keeps_path :
    ¬∀ (events : List AuditEvent) (seen : List AuditEvent) (event : AuditEvent)
      (rest : List AuditEvent), events = seen ++ event :: rest →
        ∀ s, seen.foldlM (Followed.next decodeText id 0) {} = some s →
          ∀ inode d, s.destination inode = some d →
            NamesInode decodeText 0 s.fim_context inode event →
              Reported decodeText id 0 s.fim_context event d := by
  intro hall
  obtain ⟨s, hs, hdestination, hnames⟩ :=
    reached_after_rename "/tmp/a" "/tmp/b" (by decide +kernel)
  have hwritten : (List.foldlM (Followed.next decodeText id 0) {}
      [openEvent 3 100 "/tmp/a", renameEvent 100 "/tmp/a" "/tmp/b"]).map (fun s =>
        (handleEvent decodeText id 0 s.fim_context (writeEvent 3)).map fun handled =>
          handled.map fun outcome => outcome.syscall_context.syscall_data) =
      some (some (some (.io ⟨"/tmp/a", .Write, true⟩))) := by
    decide +kernel
  obtain ⟨outcome, type, state_changed, houtcome, -, hdata⟩ :=
    hall _ _ (writeEvent 3) [] rfl s hs 100 "/tmp/b" hdestination hnames
  rw [hs, Option.map_some, houtcome, Option.map_some, Option.map_some, hdata] at hwritten
  simp at hwritten

end Osquery.FileEvents.Monitoring
