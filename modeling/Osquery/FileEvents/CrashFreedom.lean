import Osquery.FileEvents.Subscriber

/-!
# Which events the monitor survives

A handler that finds a descriptor but no path for its inode succeeds without any data, and
what unpacks them ends the process. The flag for partial events usually hides this, as it
keeps such events from being unpacked. The process also ends at the last character of an
empty path, and when a process is tracked that is the first of too many.
-/

namespace Osquery.FileEvents.Monitoring

open EventPublishers AuditTables Foundation.Hexadecimal Foundation.PartialRuns Core.Rows

/-! ### Rows -/

/-- The data are of the alternative that the type stands for. -/
def Unpackable (syscall_context : SyscallContext) : Prop := (dataColumns syscall_context).isSome

section Rows

variable (flags : Flags) (included_path_list : List String) (uptime : String)

/-- The data of a successful call are unpacked for its row or for the debug output. -/
def Unpacks (type : SyscallType) : Prop :=
  flags.audit_show_partial_fim_events ∨
    flags.audit_fim_debug ∧ (type = .Read ∨ type = .Write ∨ type = .Close)

variable {flags included_path_list uptime}

theorem isSome_emitOutcome_of_skip {outcome : Outcome} (hskip : outcome.skip_row_emission = true)
    (hprint : printable outcome.syscall_context = true) :
    (emitOutcome flags included_path_list uptime outcome).isSome := by
  simp [emitOutcome, hskip, hprint]

theorem isSome_emitOutcome_of_failed {outcome : Outcome} (hok : outcome.ok = false) :
    (emitOutcome flags included_path_list uptime outcome).isSome := by
  simp [emitOutcome, hok]

theorem isSome_emitOutcome_of_unpackable {outcome : Outcome}
    (hdata : Unpackable outcome.syscall_context)
    (hprint : printable outcome.syscall_context = true) :
    (emitOutcome flags included_path_list uptime outcome).isSome := by
  have hrow : (emitRowFromSyscallContext flags included_path_list uptime
      outcome.syscall_context).isSome := by
    rw [emitRowFromSyscallContext]
    split
    · rfl
    · rw [Option.isSome_map]
      exact hdata
  simp only [emitOutcome, hprint]
  split
  · rfl
  · simp only [Bool.not_true, Bool.and_false, Bool.false_eq_true, if_false]
    split
    · rfl
    · exact hrow

/-- The types of calls that are given data only when the inode of the descriptor is known. -/
def OnDescriptor : SyscallType → Prop
  | .Read | .Write | .Truncate | .Mmap | .Close => True
  | _ => False

theorem isSome_emitOutcome_missing_iff {outcome : Outcome} (hok : outcome.ok = true)
    (hskip : outcome.skip_row_emission = false)
    (hpartially : outcome.syscall_context.partially = true)
    (htype : OnDescriptor outcome.syscall_context.type) {data : AuditdFimSrcDestData}
    (hdata : outcome.syscall_context.syscall_data = .src_dest data) :
    (emitOutcome flags included_path_list uptime outcome).isSome ↔
      ¬Unpacks flags outcome.syscall_context.type := by
  have hcolumns : dataColumns outcome.syscall_context = none := by
    cases h : outcome.syscall_context.type <;> simp_all [OnDescriptor, dataColumns]
  have hrow : (emitRowFromSyscallContext flags included_path_list uptime
      outcome.syscall_context).isSome ↔ flags.audit_show_partial_fim_events = false := by
    rw [emitRowFromSyscallContext, hpartially, hcolumns]
    cases flags.audit_show_partial_fim_events <;> simp
  have hprint : printable outcome.syscall_context = false ↔
      outcome.syscall_context.type = .Read ∨ outcome.syscall_context.type = .Write ∨
        outcome.syscall_context.type = .Close := by
    cases h : outcome.syscall_context.type <;> simp_all [OnDescriptor, printable]
  rw [Unpacks, ← hprint, emitOutcome, hok, hskip]
  simp only [Bool.not_true, Bool.false_eq_true, if_false]
  cases flags.audit_fim_debug with
  | false => simp [hrow]
  | true =>
      cases hp : printable outcome.syscall_context with
      | false => simp
      | true => simp [hrow]

end Rows

/-! ### Calls on descriptors -/

/-- The inode of the descriptor that is found has a path. -/
def Kept (fim_context : AuditdFimContext) (process_id : ℤ) (fd : UInt64) : Prop :=
  ∀ fd_desc, fim_context.process_map.getReference process_id fd = some fd_desc →
    fd_desc.inode ∈ fim_context.inode_map

theorem onDescriptor_descriptorUse {number : SyscallNumber} (h : UsesDescriptor number)
    (mmap_prot_flags : UInt64) : OnDescriptor (descriptorUse number mmap_prot_flags).2 := by
  cases number <;> first | exact h.elim | exact trivial

section Handlers

variable {flags : Flags} {included_path_list : List String} {uptime : String}
  {normalize : String → String} {fim_context : AuditdFimContext}
  {syscall_context : SyscallContext}

theorem mem_of_getElem?_eq_some {inode_map : AuditdFimInodeMap} {inode : UInt64}
    {ino_desc : AuditdFimInodeDescriptor} (h : inode_map[inode]? = some ino_desc) :
    inode ∈ inode_map :=
  Std.ExtTreeMap.mem_iff_isSome_getElem?.mpr (by rw [h]; rfl)

theorem not_mem_of_getElem?_eq_none {inode_map : AuditdFimInodeMap} {inode : UInt64}
    (h : inode_map[inode]? = none) : inode ∉ inode_map := by
  rw [Std.ExtTreeMap.mem_iff_isSome_getElem?, h]
  simp

theorem survives_fileDescriptor_iff {number : SyscallNumber} (hnumber : UsesDescriptor number)
    {data : AuditdFimSrcDestData} (hdata : syscall_context.syscall_data = .src_dest data)
    (record : AuditEventRecord) :
    (emitOutcome flags included_path_list uptime
        (handleFileDescriptorSyscallRecord fim_context number syscall_context record)).isSome ↔
      (Unpacks flags (descriptorUse number syscall_context.mmap_prot_flags).2 →
        ∀ fd, descriptorOf number syscall_context record = some fd →
          Kept fim_context syscall_context.pid fd) := by
  have htype := onDescriptor_descriptorUse hnumber syscall_context.mmap_prot_flags
  by_cases hknown : ∃ fd fd_desc, descriptorOf number syscall_context record = some fd ∧
      fim_context.process_map.getReference syscall_context.pid fd = some fd_desc
  · obtain ⟨fd, fd_desc, hfd, hdesc⟩ := hknown
    have hkept : (∀ fd, descriptorOf number syscall_context record = some fd →
        Kept fim_context syscall_context.pid fd) ↔ fd_desc.inode ∈ fim_context.inode_map := by
      simp [hfd, Kept, hdesc]
    rw [hkept]
    cases hinode : fim_context.inode_map[fd_desc.inode]? with
    | none =>
        obtain ⟨process_map, hhandle⟩ := handleFileDescriptor_of_missing hfd hdesc hinode
        rw [hhandle, isSome_emitOutcome_missing_iff rfl rfl rfl htype hdata, Not,
          iff_false_intro (not_mem_of_getElem?_eq_none hinode)]
    | some ino_desc =>
        obtain ⟨process_map, type, state_changed, hhandle⟩ :=
          handleFileDescriptor_of_found hfd hdesc hinode
        refine iff_of_true ?_ fun _ => mem_of_getElem?_eq_some hinode
        rw [hhandle]
        apply isSome_emitOutcome_of_unpackable
        · cases number <;> first | exact hnumber.elim | cases state_changed <;> rfl
        · cases number <;> first | exact hnumber.elim | rfl
  · have hunknown : ∀ fd, descriptorOf number syscall_context record = some fd →
        fim_context.process_map.getReference syscall_context.pid fd = none := by
      intro fd hfd
      rw [Option.eq_none_iff_forall_ne_some]
      exact fun fd_desc hdesc => hknown ⟨fd, fd_desc, hfd, hdesc⟩
    obtain ⟨left, hhandle⟩ := handleFileDescriptor_of_unknown hunknown
    refine iff_of_true ?_ fun _ fd hfd fd_desc hdesc => ?_
    · rw [hhandle]
      exact isSome_emitOutcome_of_failed rfl
    · rw [hunknown fd hfd] at hdesc
      cases hdesc

/-! ### The other calls -/

theorem survives_unlink :
    (emitOutcome flags included_path_list uptime
      (handleUnlinkSyscallRecord normalize fim_context syscall_context)).isSome := by
  rw [handleUnlinkSyscallRecord]
  dsimp only
  split
  · exact isSome_emitOutcome_of_failed rfl
  · exact isSome_emitOutcome_of_unpackable rfl rfl

theorem survives_rename :
    (emitOutcome flags included_path_list uptime
      (handleRenameSyscallRecord normalize fim_context syscall_context)).isSome := by
  rw [handleRenameSyscallRecord]
  dsimp only
  split
  · exact isSome_emitOutcome_of_failed rfl
  · split
    · exact isSome_emitOutcome_of_failed rfl
    · exact isSome_emitOutcome_of_unpackable rfl rfl

theorem survives_truncate :
    (emitOutcome flags included_path_list uptime
      (handleTruncateSyscallRecord normalize fim_context syscall_context)).isSome := by
  rw [handleTruncateSyscallRecord]
  dsimp only
  split
  · exact isSome_emitOutcome_of_failed rfl
  · exact isSome_emitOutcome_of_unpackable rfl rfl

theorem isSome_pathType_iff {path : String} : (pathType path).isSome ↔ path ≠ "" := by
  rw [pathType, Option.isSome_map, List.getLast?_isSome, ne_eq, String.toList_eq_nil_iff]

theorem survives_link_iff {number : SyscallNumber} :
    ((handleLinkAndSymlinkSyscallRecord normalize fim_context number syscall_context).bind
        (emitOutcome flags included_path_list uptime)).isSome ↔
      (isSymbolic number → syscall_context.path_record_map.size = 3 →
        (syscall_context.item 0).path ≠ "") := by
  rw [handleLinkAndSymlinkSyscallRecord]
  dsimp only
  split
  · next hsize =>
      refine iff_of_true ?_ fun _ h => absurd h hsize
      exact isSome_emitOutcome_of_failed rfl
  · next hsize =>
      rw [forall_prop_of_true (not_not.mp hsize), ← isSome_pathType_iff]
      cases hsymbolic : isSymbolic number with
      | false => exact iff_of_true (isSome_emitOutcome_of_unpackable rfl rfl) (by simp)
      | true =>
          rw [forall_prop_of_true rfl, if_pos rfl]
          cases pathType (syscall_context.item 0).path with
          | none => rfl
          | some type => exact iff_of_true (isSome_emitOutcome_of_unpackable rfl rfl) rfl

theorem survives_nameToHandleAt_iff :
    (((handleNameToHandleAtSyscallRecord normalize fim_context syscall_context).map
        fun outcome => { outcome with skip_row_emission := true }).bind
          (emitOutcome flags included_path_list uptime)).isSome ↔
      (syscall_context.path_record_map.size = 1 → (syscall_context.item 0).path ≠ "") := by
  rw [handleNameToHandleAtSyscallRecord]
  dsimp only
  split
  · next hsize =>
      refine iff_of_true ?_ fun h => absurd h hsize
      exact isSome_emitOutcome_of_failed rfl
  · next hsize =>
      rw [forall_prop_of_true (not_not.mp hsize), ← isSome_pathType_iff]
      cases pathType (syscall_context.item 0).path with
      | none => rfl
      | some type => exact iff_of_true (isSome_emitOutcome_of_skip rfl rfl) rfl

/-! ### Calls that open, close and copy descriptors -/

theorem survives_open (call : Syscall) (return_value : UInt64) :
    (emitOutcome flags included_path_list uptime (.ofHandled syscall_context
      (handleOpenOrCreateSyscallRecord normalize fim_context call return_value))).isSome := by
  rw [handleOpenOrCreateSyscallRecord]
  cases openedItem fim_context call with
  | none => exact isSome_emitOutcome_of_failed rfl
  | some opened =>
      cases isTruncate call with
      | false => exact isSome_emitOutcome_of_unpackable rfl rfl
      | true => exact isSome_emitOutcome_of_unpackable rfl rfl

theorem survives_dup (call : Syscall) (return_value : UInt64) :
    (emitOutcome flags included_path_list uptime (.ofHandled syscall_context
      { handleDupSyscallRecord fim_context call return_value with
        skip_row_emission := true })).isSome := by
  apply isSome_emitOutcome_of_skip rfl
  have htype : (handleDupSyscallRecord fim_context call return_value).type = .Dup := by
    rw [handleDupSyscallRecord]
    cases call.a0 with
    | none => rfl
    | some fd =>
        dsimp only
        cases fim_context.process_map.duplicate call.process_id fd return_value <;> rfl
  simp [printable, Outcome.ofHandled, htype, SyscallType.ofHandled]

theorem survives_close_iff {data : AuditdFimSrcDestData}
    (hdata : syscall_context.syscall_data = .src_dest data) (call : Syscall) :
    (emitOutcome flags included_path_list uptime (.ofHandled syscall_context
        (handleCloseSyscallRecord fim_context call))).isSome ↔
      (Unpacks flags .Close → ∀ fd, call.a0 = some fd → Kept fim_context call.process_id fd) := by
  rw [handleCloseSyscallRecord]
  cases ha0 : call.a0 with
  | none => exact iff_of_true (isSome_emitOutcome_of_failed rfl) fun _ fd h => by cases h
  | some fd =>
      have hkept : (∀ fd', some fd = some fd' → Kept fim_context call.process_id fd') ↔
          Kept fim_context call.process_id fd := by simp
      rw [hkept, Kept]
      dsimp only
      rw [← takeAndRemove_fst]
      cases fim_context.process_map.takeAndRemove call.process_id fd with
      | none =>
          exact iff_of_true (isSome_emitOutcome_of_failed rfl) fun _ fd_desc h => by cases h
      | some taken =>
          obtain ⟨fd_desc, process_map⟩ := taken
          have hinode : (∀ fd_desc', some fd_desc = some fd_desc' →
              fd_desc'.inode ∈ fim_context.inode_map) ↔
                fd_desc.inode ∈ fim_context.inode_map := by simp
          rw [Option.map_some, hinode]
          dsimp only
          cases hino : fim_context.inode_map[fd_desc.inode]? with
          | none =>
              have hclose : OnDescriptor .Close := trivial
              rw [isSome_emitOutcome_missing_iff rfl rfl (Bool.or_true _) hclose hdata, Not,
                iff_false_intro (not_mem_of_getElem?_eq_none hino)]
              rfl
          | some ino_desc =>
              refine iff_of_true ?_ fun _ => mem_of_getElem?_eq_some hino
              exact isSome_emitOutcome_of_unpackable rfl rfl

/-- The call finds the path of its descriptor where that is unpacked, and does not make an entry
that is removed at once. -/
structure HarmlessDescriptors (flags : Flags) (fim_context : AuditdFimContext)
    (number : FileEvents.SyscallNumber) (call : Syscall) : Prop where
  opens : savesDescriptor number → (openedItem fim_context call).isSome →
    ¬Erased fim_context.process_map call.process_id
  closes : number = .nr_close → Unpacks flags .Close →
    ∀ fd, call.a0 = some fd → Kept fim_context call.process_id fd

theorem harmlessDescriptors_iff_opens {number : FileEvents.SyscallNumber}
    (hsaves : savesDescriptor number = true) (call : Syscall) :
    HarmlessDescriptors flags fim_context number call ↔
      ((openedItem fim_context call).isSome →
        ¬Erased fim_context.process_map call.process_id) := by
  constructor
  · exact fun h => h.opens hsaves
  · refine fun h => ⟨fun _ => h, ?_⟩
    rintro rfl
    cases hsaves

theorem harmlessDescriptors_iff_closes {number : FileEvents.SyscallNumber}
    (hsaves : savesDescriptor number = false) (call : Syscall) :
    HarmlessDescriptors flags fim_context number call ↔
      (number = .nr_close → Unpacks flags .Close →
        ∀ fd, call.a0 = some fd → Kept fim_context call.process_id fd) := by
  constructor
  · exact fun h => h.closes
  · refine fun h => ⟨fun hopens => ?_, h⟩
    rw [hsaves] at hopens
    cases hopens

theorem survives_descriptors_iff {number : FileEvents.SyscallNumber}
    {data : AuditdFimSrcDestData} (hdata : syscall_context.syscall_data = .src_dest data)
    (record : AuditEventRecord) :
    ((handleDescriptorsSyscallRecord normalize fim_context number syscall_context record).bind
        (emitOutcome flags included_path_list uptime)).isSome ↔
      HarmlessDescriptors flags fim_context number (toSyscall number syscall_context record) := by
  let call := toSyscall number syscall_context record
  cases hsaves : savesDescriptor number with
  | true =>
      have hpid : call.process_id = syscall_context.pid := rfl
      rw [harmlessDescriptors_iff_opens hsaves, hpid, ← usesErased_iff,
        handleDescriptorsSyscallRecord, hsaves, handler_of_savesDescriptor normalize hsaves]
      split
      · next herased =>
          rw [Bool.true_and, Bool.and_eq_true] at herased
          exact iff_of_false (by simp) fun h => h herased.1 herased.2
      · next hkept =>
          rw [Bool.true_and, Bool.and_eq_true, not_and] at hkept
          exact iff_of_true (survives_open call syscall_context.return_value) hkept
  | false =>
      rw [harmlessDescriptors_iff_closes hsaves, handleDescriptorsSyscallRecord, hsaves]
      simp only [Bool.false_and, Bool.false_eq_true, if_false, Option.bind_some]
      cases number with
      | nr_close => rw [forall_prop_of_true rfl]; exact survives_close_iff hdata call
      | nr_dup | nr_dup2 | nr_dup3 =>
          exact iff_of_true (survives_dup call syscall_context.return_value) (by simp)
      | nr_clone | nr_fork | nr_vfork =>
          refine iff_of_true ?_ (by simp)
          simp only [FileEvents.auditSyscallRecordHandler, toSyscall]
          split
          · exact isSome_emitOutcome_of_failed rfl
          · exact isSome_emitOutcome_of_skip rfl rfl
      | nr_open | nr_openat | nr_open_by_handle_at | nr_creat | nr_mknod | nr_mknodat =>
          cases hsaves

/-! ### Events -/

/-- What a call needs of the maps and of its records. -/
def HarmlessCall (flags : Flags) (fim_context : AuditdFimContext)
    (syscall_context : SyscallContext) (record : AuditEventRecord) (number : SyscallNumber) :
    Prop :=
  match number with
  | .descriptors call =>
      HarmlessDescriptors flags fim_context call (toSyscall call syscall_context record)
  | .nr_symlink | .nr_symlinkat =>
      syscall_context.path_record_map.size = 3 → (syscall_context.item 0).path ≠ ""
  | .nr_name_to_handle_at =>
      syscall_context.path_record_map.size = 1 → (syscall_context.item 0).path ≠ ""
  | .nr_pread64 | .nr_preadv | .nr_read | .nr_readv | .nr_write | .nr_writev | .nr_pwrite64
  | .nr_pwritev | .nr_ftruncate =>
      Unpacks flags (descriptorUse number syscall_context.mmap_prot_flags).2 →
        ∀ fd, descriptorOf number syscall_context record = some fd →
          Kept fim_context syscall_context.pid fd
  | .nr_mmap =>
      syscall_context.mmap_record_present = false → Unpacks flags .Mmap →
        Kept fim_context syscall_context.pid syscall_context.mmap_file_descriptor
  | _ => True

theorem survives_syscallHandler_iff {data : AuditdFimSrcDestData}
    (hdata : syscall_context.syscall_data = .src_dest data) (record : AuditEventRecord)
    (number : SyscallNumber) :
    ((syscallHandler normalize fim_context number syscall_context record).bind
        (emitOutcome flags included_path_list uptime)).isSome ↔
      HarmlessCall flags fim_context syscall_context record number := by
  cases number with
  | descriptors call => exact survives_descriptors_iff hdata record
  | nr_link | nr_linkat =>
      refine iff_of_true ?_ trivial
      exact survives_link_iff.mpr fun h => by cases h
  | nr_symlink | nr_symlinkat => exact survives_link_iff.trans (forall_prop_of_true rfl)
  | nr_name_to_handle_at => exact survives_nameToHandleAt_iff
  | nr_rename | nr_renameat | nr_renameat2 => exact iff_of_true survives_rename trivial
  | nr_unlink | nr_unlinkat => exact iff_of_true survives_unlink trivial
  | nr_truncate => exact iff_of_true survives_truncate trivial
  | nr_pread64 | nr_preadv | nr_read | nr_readv | nr_write | nr_writev | nr_pwrite64 | nr_pwritev
  | nr_ftruncate =>
      refine survives_fileDescriptor_iff ?_ hdata record
      trivial
  | nr_mmap =>
      have husesDescriptor : UsesDescriptor .nr_mmap := trivial
      rw [syscallHandler, HarmlessCall]
      split
      · next hpresent =>
          refine iff_of_true (isSome_emitOutcome_of_failed rfl) fun h => ?_
          cases hpresent.symm.trans h
      · next hpresent =>
          rw [forall_prop_of_true (Bool.eq_false_iff.mpr hpresent), Option.bind_some,
            survives_fileDescriptor_iff husesDescriptor hdata]
          simp [descriptorOf, descriptorUse]

theorem survives_handler_iff {data : AuditdFimSrcDestData}
    (hdata : syscall_context.syscall_data = .src_dest data) (record : AuditEventRecord) :
    ((auditSyscallRecordHandler normalize fim_context syscall_context record).bind
        (emitOutcome flags included_path_list uptime)).isSome ↔
      ∀ return_value number,
        getIntegerFieldFromMap16 record.fields "exit" = some return_value →
          syscallCase syscall_context.syscall_number = some number →
            HarmlessCall flags fim_context (syscall_context.returned return_value) record
              number := by
  rw [auditSyscallRecordHandler]
  cases getIntegerFieldFromMap16 record.fields "exit" with
  | none => exact iff_of_true (isSome_emitOutcome_of_failed rfl) fun _ _ h => by cases h
  | some return_value =>
      cases syscallCase syscall_context.syscall_number with
      | none => exact iff_of_true (isSome_emitOutcome_of_failed rfl) fun _ _ _ h => by cases h
      | some number =>
          have hdata' : (syscall_context.returned return_value).syscall_data = .src_dest data :=
            hdata
          refine (survives_syscallHandler_iff hdata' record number).trans ?_
          constructor
          · rintro h _ _ ⟨⟩ ⟨⟩
            exact h
          · exact fun h => h return_value number rfl rfl

end Handlers

section Runs

variable {flags : Flags} {included_path_list : List String} {uptime : String}
  {unhex : String → Option String} {normalize : String → String} {unassigned : UInt32}

/-- An event of a call carries the data of one, and its call is harmless. -/
structure Harmless (unhex : String → Option String) (unassigned : UInt32) (flags : Flags)
    (fim_context : AuditdFimContext) (event : AuditEvent) : Prop where
  data : event.type = .syscall → (getSyscallData event).isSome
  call : ∀ syscall_context record return_value number,
    readEvent unhex unassigned event = some (some (syscall_context, record)) →
      getIntegerFieldFromMap16 record.fields "exit" = some return_value →
        syscallCase syscall_context.syscall_number = some number →
          HarmlessCall flags fim_context (syscall_context.returned return_value) record number

theorem isSome_readEvent_iff {event : AuditEvent} :
    (readEvent unhex unassigned event).isSome ↔
      (event.type = .syscall → (getSyscallData event).isSome) := by
  rw [readEvent]
  split
  · next htype => exact iff_of_true rfl fun h => absurd h htype
  · next htype => rw [Option.isSome_map, forall_prop_of_true (not_not.mp htype)]

theorem isSome_processEvent_iff {fim_context : AuditdFimContext} {event : AuditEvent} :
    (processEvent flags included_path_list uptime unhex normalize unassigned fim_context
        event).isSome ↔
      Harmless unhex unassigned flags fim_context event := by
  have hharmless : Harmless unhex unassigned flags fim_context event ↔
      (readEvent unhex unassigned event).isSome ∧
        ∀ syscall_context record return_value number,
          readEvent unhex unassigned event = some (some (syscall_context, record)) →
            getIntegerFieldFromMap16 record.fields "exit" = some return_value →
              syscallCase syscall_context.syscall_number = some number →
                HarmlessCall flags fim_context (syscall_context.returned return_value) record
                  number := by
    rw [isSome_readEvent_iff]
    exact ⟨fun h => ⟨h.data, h.call⟩, fun h => ⟨h.1, h.2⟩⟩
  rw [hharmless, processEvent, handleEvent]
  cases hread : readEvent unhex unassigned event with
  | none => exact iff_of_false (by simp) fun h => by cases h.1
  | some call =>
      rw [Option.isSome_some, and_iff_right rfl]
      cases call with
      | none => exact iff_of_true rfl fun _ _ _ _ h => by cases h
      | some call =>
          obtain ⟨syscall_context, record⟩ := call
          obtain ⟨event_data, -, hfor⟩ := readFor_readEvent hread
          have hcall : (∀ syscall_context' record' return_value number,
              some (some (syscall_context, record)) =
                  some (some (syscall_context', record')) →
                getIntegerFieldFromMap16 record'.fields "exit" = some return_value →
                  syscallCase syscall_context'.syscall_number = some number →
                    HarmlessCall flags fim_context (syscall_context'.returned return_value)
                      record' number) ↔
              ∀ return_value number,
                getIntegerFieldFromMap16 record.fields "exit" = some return_value →
                  syscallCase syscall_context.syscall_number = some number →
                    HarmlessCall flags fim_context (syscall_context.returned return_value)
                      record number := by
            constructor
            · exact fun h return_value number => h _ _ return_value number rfl
            · rintro h _ _ return_value number ⟨⟩
              exact h return_value number
          rw [hcall, ← @survives_handler_iff flags included_path_list uptime normalize fim_context
            syscall_context _ hfor.syscall_data record]
          dsimp only
          cases auditSyscallRecordHandler normalize fim_context syscall_context record with
          | none => rfl
          | some outcome => simp

/-- The monitor survives lists of events exactly when each event is harmless for the maps that the
events before it leave. -/
theorem monitor_survives_iff (flags : Flags) (included_path_list : List String) (uptime : String)
    (unhex : String → Option String) (normalize : String → String) (unassigned : UInt32)
    (fim_context : AuditdFimContext) (lists : List (List AuditEvent)) :
    (processLists flags included_path_list uptime unhex normalize unassigned fim_context
        lists).isSome ↔
      ∀ seen event rest, lists.flatten = seen ++ event :: rest →
        ∀ s, processEvents flags included_path_list uptime unhex normalize unassigned fim_context
            seen = some s →
          Harmless unhex unassigned flags s.1 event := by
  rw [processLists_eq, processEvents, isSome_foldlM_iff]
  simp only [emitting, Option.isSome_map, isSome_processEvent_iff]
  rfl

end Runs

/-! ### A file that is unlinked while it is open -/

def unlinkEvent (inode : ℕ) (name : String) : AuditEvent :=
  syscallEvent 87 [("exit", "0")] [pathRecord 0 2 "/tmp", pathRecord 1 inode name]

/-- When partial events are shown, a write to a file that was unlinked ends the process. -/
theorem unlinked_file_crashes :
    ¬∀ (lists : List (List AuditEvent)) (partial_events accesses : Bool),
      (processLists ⟨partial_events, accesses, false⟩ [] "0" decodeText id 0 {}
        lists).isSome := by
  intro hall
  have hsurvives := hall
    [[openEvent 3 100 "/tmp/a"], [unlinkEvent 100 "/tmp/a", writeEvent 3]] true false
  revert hsurvives
  decide +kernel

end Osquery.FileEvents.Monitoring
