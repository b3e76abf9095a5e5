import Osquery.FileEvents.Subscriber

/-!
# Descriptors from one call to the next

The kernel prints the result of a call in decimal and its arguments in hexadecimal, but both
are read as hexadecimal. A descriptor of one digit is found again by the calls that follow.
One of more digits is saved under a larger number, so a later call finds what an earlier file
left there. A mapping that names its descriptor is passed over.
-/

namespace Osquery.FileEvents.Monitoring

open EventPublishers AuditTables Foundation.Numeral Foundation.Hexadecimal
open Foundation.LimitedMaps Foundation.PartialRuns Core.Rows

section Events

variable (unhex : String → Option String) (normalize : String → String) (unassigned : UInt32)

/-- The event that uses a descriptor is given the path after the one that opens it. -/
def Attributed (fim_context : AuditdFimContext) (opening using_it : AuditEvent) (path : String) :
    Prop :=
  ∃ after, contextAfter unhex normalize unassigned fim_context opening = some after ∧
    Reported unhex normalize unassigned after using_it path

end Events

/-! ### Calls that open a file -/

/-- The working directory and the item of the opened file. -/
def openedFile (syscall_context : SyscallContext) : String × AuditdFimPathRecordItem :=
  if syscall_context.path_record_map.size = 2 then
    ((syscall_context.item 0).path, syscall_context.item 1)
  else (syscall_context.cwd, syscall_context.item 0)

def openedInode (syscall_context : SyscallContext) : UInt64 :=
  (openedFile syscall_context).2.inode

def openedPath (normalize : String → String) (syscall_context : SyscallContext) : String :=
  normalizePath normalize (openedFile syscall_context).1 (openedFile syscall_context).2.path

/-- An event of `open` or `openat` that returned the descriptor `n`. -/
structure Opens (unhex : String → Option String) (unassigned : UInt32) (process_id : Int32)
    (n : UInt64) (event : AuditEvent) (syscall_context : SyscallContext) : Prop where
  read : ∃ record, readEvent unhex unassigned event = some (some (syscall_context, record)) ∧
    record.fields["exit"]? = some (toText n.toNat)
  number : syscall_context.syscall_number = 2 ∨ syscall_context.syscall_number = 257
  process_id : syscall_context.process_id = process_id
  items : 1 ≤ syscall_context.path_record_map.size ∧ syscall_context.path_record_map.size ≤ 3

/-- What a call used a descriptor for, with its result. -/
inductive Use
  | call (result : ℕ)
  | mapping
  deriving DecidableEq

/-- An event of a call on the descriptor `n`: an argument, or in the record of a mapping. -/
inductive Uses (unhex : String → Option String) (unassigned : UInt32) (process_id : Int32)
    (n : UInt64) : Use → AuditEvent → Prop
  | call {event : AuditEvent} {syscall_context : SyscallContext} {record : AuditEventRecord}
      {number : SyscallNumber} (result : ℕ) :
      readEvent unhex unassigned event = some (some (syscall_context, record)) →
        syscall_context.process_id = process_id →
          syscallCase syscall_context.syscall_number = some number →
            UsesDescriptor number → number ≠ .nr_mmap →
              record.fields["exit"]? = some (toText result) →
                record.fields["a0"]? = some (hexNumeral n.toNat) →
                  Uses unhex unassigned process_id n (.call result) event
  | mapping {event : AuditEvent} {event_data : SyscallAuditEventData} {record : AuditEventRecord} :
      event.type = .syscall → getSyscallData event = some event_data →
        event_data.process_id = process_id → event_data.syscall_number = 9 →
          record ∈ event.record_list → record.type = AUDIT_MMAP →
            record.fields["fd"]? = some (toText n.toNat) →
              Uses unhex unassigned process_id n .mapping event

/-! ### The maps after a file was opened -/

theorem getIntegerFieldFromMap16_toText {fields : Std.ExtTreeMap String String} {name : String}
    {n : ℕ} (h : fields[name]? = some (toText n)) :
    getIntegerFieldFromMap16 fields name =
      if n < 10 ^ 16 then some (UInt64.ofNat (reread 10 n)) else none := by
  rw [getIntegerFieldFromMap16, h, Option.bind_some, stoull16_toText]
  split
  · rfl
  · rfl

theorem getIntegerFieldFromMap16_hexNumeral {fields : Std.ExtTreeMap String String}
    {name : String} {n : UInt64} (h : fields[name]? = some (hexNumeral n.toNat)) :
    getIntegerFieldFromMap16 fields name = some n := by
  rw [getIntegerFieldFromMap16, h, Option.bind_some, stoull16_hexNumeral]
  rfl

/-- The descriptor is saved under its own number when it has one digit. -/
theorem ofNat_reread_eq_iff {n : UInt64} (h : n.toNat < 10 ^ 16) :
    n = UInt64.ofNat (reread 10 n.toNat) ↔ n.toNat < 10 := by
  have hlt : reread 10 n.toNat < 2 ^ 64 := (reread_ten_lt_iff 15).mpr h
  rw [← reread_ten_eq_iff, ← UInt64.toNat_inj, UInt64.toNat_ofNat_of_lt' hlt, eq_comm]

section Opening

variable {unhex : String → Option String} {normalize : String → String} {unassigned : UInt32}
  {process_id : Int32} {n : UInt64} {opening : AuditEvent} {syscall_context : SyscallContext}

theorem openedItem_toSyscall {number : FileEvents.SyscallNumber}
    (hnumber : number = .nr_open ∨ number = .nr_openat)
    (hitems : 1 ≤ syscall_context.path_record_map.size ∧
      syscall_context.path_record_map.size ≤ 3)
    (fim_context : AuditdFimContext) (record : AuditEventRecord) :
    openedItem fim_context (toSyscall number syscall_context record) =
      some (openedFile syscall_context) := by
  have hsize : syscall_context.path_record_map.size = 1 ∨
      syscall_context.path_record_map.size = 2 ∨ syscall_context.path_record_map.size = 3 := by
    omega
  obtain rfl | rfl := hnumber <;> obtain hsize | hsize | hsize := hsize <;>
    simp [openedItem, toSyscall, openedFile, hsize, Syscall.item, SyscallContext.item]

theorem syscallCase_of_opens
    (h : Opens unhex unassigned process_id n opening syscall_context) :
    ∃ number, syscallCase syscall_context.syscall_number = some (.descriptors number) ∧
      (number = .nr_open ∨ number = .nr_openat) := by
  obtain hnumber | hnumber := h.number
  · exact ⟨.nr_open, by rw [hnumber]; rfl, Or.inl rfl⟩
  · exact ⟨.nr_openat, by rw [hnumber]; rfl, Or.inr rfl⟩

/-- What an event that opens a file leaves in the maps. -/
theorem contextAfter_opens
    (h : Opens unhex unassigned process_id n opening syscall_context)
    (fim_context : AuditdFimContext) :
    ∃ last_operation, contextAfter unhex normalize unassigned fim_context opening =
      if n.toNat < 10 ^ 16 then
        if usesErased fim_context.process_map process_id.toInt then none
        else some
          ⟨fim_context.process_map.save (UInt64.ofNat (reread 10 n.toNat)) process_id.toInt
              (openedInode syscall_context) last_operation,
            fim_context.inode_map.save (openedInode syscall_context) .File
              (openedPath normalize syscall_context)⟩
      else some fim_context := by
  obtain ⟨record, hread, hexit⟩ := h.read
  obtain ⟨number, hcase, hnumber⟩ := syscallCase_of_opens h
  have hpid : syscall_context.pid = process_id.toInt := by rw [SyscallContext.pid, h.process_id]
  rw [contextAfter, handleEvent, hread]
  dsimp only
  rw [auditSyscallRecordHandler, getIntegerFieldFromMap16_toText hexit, hcase]
  by_cases hn : n.toNat < 10 ^ 16
  · have hsaves : savesDescriptor number = true := by
      obtain rfl | rfl := hnumber
      · rfl
      · rfl
    let returned := syscall_context.returned (UInt64.ofNat (reread 10 n.toNat))
    have hreturned : returned.pid = process_id.toInt := hpid
    have hopened : openedItem fim_context (toSyscall number returned record) =
        some (openedFile syscall_context) :=
      openedItem_toSyscall hnumber h.items fim_context record
    obtain ⟨last_operation, left, hhandle⟩ :=
      handleDescriptors_of_opened normalize hsaves hopened
    use last_operation
    simp only [if_pos hn, syscallHandler]
    rw [hhandle, hreturned]
    cases usesErased fim_context.process_map process_id.toInt with
    | true => simp
    | false => simp [returned, SyscallContext.returned, openedInode, openedPath]
  · simp only [if_neg hn]
    exact ⟨.Open, rfl⟩

end Opening

/-! ### Calls on a descriptor -/

section Using

variable {unhex : String → Option String} {normalize : String → String} {unassigned : UInt32}
  {process_id : Int32} {n : UInt64} {using_it : AuditEvent}

theorem syscallHandler_of_uses {number : SyscallNumber} (huses : UsesDescriptor number)
    (hmapping : number ≠ .nr_mmap) (fim_context : AuditdFimContext)
    (syscall_context : SyscallContext) (record : AuditEventRecord) :
    syscallHandler normalize fim_context number syscall_context record =
      some (handleFileDescriptorSyscallRecord fim_context number syscall_context record) := by
  cases number <;> first | exact huses.elim | exact absurd rfl hmapping | rfl

/-- The descriptor leads to a file of the path. -/
def Leads (fim_context : AuditdFimContext) (process_id : ℤ) (n : UInt64) (path : String) : Prop :=
  ∃ fd_desc, fim_context.process_map.getReference process_id n = some fd_desc ∧
    fim_context.inode_map[fd_desc.inode]?.map AuditdFimInodeDescriptor.path = some path

/-- A path is reported exactly when it is the one that is kept for the inode of the descriptor. -/
theorem fileDescriptor_data_iff {number : SyscallNumber} {fim_context : AuditdFimContext}
    {syscall_context : SyscallContext} {data : AuditdFimSrcDestData}
    (hdata : syscall_context.syscall_data = .src_dest data) {record : AuditEventRecord}
    {fd : UInt64} (hfd : descriptorOf number syscall_context record = some fd) (path : String) :
    (∃ type state_changed,
      (handleFileDescriptorSyscallRecord fim_context number syscall_context record).ok = true ∧
        (handleFileDescriptorSyscallRecord fim_context number syscall_context
          record).syscall_context.syscall_data = .io ⟨path, type, state_changed⟩) ↔
      Leads fim_context syscall_context.pid fd path := by
  rw [Leads]
  cases hdesc : fim_context.process_map.getReference syscall_context.pid fd with
  | none =>
      have hunknown : ∀ fd', descriptorOf number syscall_context record = some fd' →
          fim_context.process_map.getReference syscall_context.pid fd' = none := by
        intro fd' hfd'
        obtain rfl := Option.some.inj (hfd.symm.trans hfd')
        exact hdesc
      obtain ⟨left, hhandle⟩ := handleFileDescriptor_of_unknown hunknown
      rw [hhandle]
      simp
  | some fd_desc =>
      simp only [Option.some.injEq, exists_eq_left']
      cases hinode : fim_context.inode_map[fd_desc.inode]? with
      | none =>
          obtain ⟨process_map, hhandle⟩ := handleFileDescriptor_of_missing hfd hdesc hinode
          rw [hhandle]
          simp [hdata]
      | some ino_desc =>
          obtain ⟨process_map, type, state_changed, hhandle⟩ :=
            handleFileDescriptor_of_found hfd hdesc hinode
          rw [hhandle]
          simp

theorem reported_call_iff {event : AuditEvent} {syscall_context : SyscallContext}
    {record : AuditEventRecord} {number : SyscallNumber} {result : ℕ}
    (hread : readEvent unhex unassigned event = some (some (syscall_context, record)))
    (hpid : syscall_context.process_id = process_id)
    (hnumber : syscallCase syscall_context.syscall_number = some number)
    (huses : UsesDescriptor number) (hmapping : number ≠ .nr_mmap)
    (hexit : record.fields["exit"]? = some (toText result))
    (ha0 : record.fields["a0"]? = some (hexNumeral n.toNat)) (fim_context : AuditdFimContext)
    (path : String) :
    Reported unhex normalize unassigned fim_context event path ↔
      result < 10 ^ 16 ∧ Leads fim_context process_id.toInt n path := by
  obtain ⟨event_data, -, hfor⟩ := readFor_readEvent hread
  rw [Reported, handleEvent, hread]
  dsimp only
  rw [auditSyscallRecordHandler, getIntegerFieldFromMap16_toText hexit, hnumber]
  by_cases hresult : result < 10 ^ 16
  · let returned := syscall_context.returned (UInt64.ofNat (reread 10 result))
    have hfd : descriptorOf number returned record = some n := by
      rw [descriptorOf, if_neg hmapping]
      exact getIntegerFieldFromMap16_hexNumeral ha0
    have hreturned : returned.pid = process_id.toInt := by
      rw [← hpid]
      rfl
    have hdata : returned.syscall_data = .src_dest {} := hfor.syscall_data
    rw [and_iff_right hresult, ← hreturned, ← fileDescriptor_data_iff hdata hfd path]
    simp only [if_pos hresult]
    rw [syscallHandler_of_uses huses hmapping]
    simp [returned]
  · simp only [hresult, false_and, iff_false]
    rintro ⟨outcome, type, state_changed, houtcome, hok, _⟩
    obtain rfl := Option.some.inj (Option.some.inj houtcome)
    cases hok

/-- A record that was seen stays seen. -/
theorem mmap_record_present_readRecord {s s' : Reading} {record : AuditEventRecord}
    (h : readRecord unhex s record = some s')
    (hpresent : s.syscall_context.mmap_record_present = true ∨ record.type = AUDIT_MMAP) :
    s'.syscall_context.mmap_record_present = true := by
  have hkept : record.type ≠ AUDIT_MMAP → s.syscall_context.mmap_record_present = true :=
    fun htype => hpresent.resolve_right htype
  unfold readRecord at h
  split at h
  · next htype =>
      obtain rfl := Option.some.inj h
      exact hkept (by rw [htype]; decide)
  · split at h
    · next htype =>
        obtain ⟨buffer, -, rfl⟩ := Option.map_eq_some_iff.mp h
        exact hkept (by rw [htype]; decide)
    · split at h
      · next htype =>
          obtain ⟨output, -, rfl⟩ := Option.map_eq_some_iff.mp h
          exact hkept (by rw [htype]; decide)
      · split at h
        · obtain ⟨read, hread, rfl⟩ := Option.map_eq_some_iff.mp h
          obtain ⟨fd, -, rfl⟩ := Option.map_eq_some_iff.mp hread
          rfl
        · next htype =>
            obtain rfl := Option.some.inj h
            exact hkept htype

theorem mmap_record_present_of_mem {records : List AuditEventRecord} {record : AuditEventRecord}
    (hmem : record ∈ records) (htype : record.type = AUDIT_MMAP) {s s' : Reading}
    (h : records.foldlM (readRecord unhex) s = some s') :
    s'.syscall_context.mmap_record_present = true := by
  obtain ⟨before, after, rfl⟩ := List.append_of_mem hmem
  rw [List.foldlM_append, Option.bind_eq_bind, Option.bind_eq_some_iff] at h
  obtain ⟨seen, -, h⟩ := h
  obtain ⟨next, hnext, hafter⟩ := foldlM_cons_eq_some_iff.mp h
  have hstep : ∀ s record s', s.syscall_context.mmap_record_present = true →
      readRecord unhex s record = some s' → s'.syscall_context.mmap_record_present = true :=
    fun s record s' hs h => mmap_record_present_readRecord h (Or.inl hs)
  exact good_of_steps hstep (mmap_record_present_readRecord hnext (Or.inr htype)) hafter

/-- A mapping that names its descriptor is not reported. -/
theorem not_reported_mapping {event : AuditEvent} {event_data : SyscallAuditEventData}
    {record : AuditEventRecord} (hdata : getSyscallData event = some event_data)
    (hnumber : event_data.syscall_number = 9) (hmem : record ∈ event.record_list)
    (htype : record.type = AUDIT_MMAP) (fim_context : AuditdFimContext) (path : String) :
    ¬Reported unhex normalize unassigned fim_context event path := by
  rintro ⟨outcome, type, state_changed, hhandle, hok, -⟩
  rw [handleEvent] at hhandle
  split at hhandle
  · cases hhandle
  · cases hhandle
  · next syscall_context call hread =>
      obtain ⟨event_data', hdata', hfor⟩ := readFor_readEvent hread
      obtain ⟨-, _, -, -, hrecords⟩ := readEvent_eq_some_iff.mp hread
      have hpresent := mmap_record_present_of_mem hmem htype hrecords
      have hcase : syscallCase syscall_context.syscall_number = some .nr_mmap := by
        obtain rfl := Option.some.inj (hdata.symm.trans hdata')
        rw [hfor.syscall_number, hnumber]
        rfl
      obtain ⟨found, hfound, hsome⟩ := Option.map_eq_some_iff.mp hhandle
      obtain rfl := Option.some.inj hsome
      rw [auditSyscallRecordHandler, hcase] at hfound
      split at hfound
      · obtain rfl := Option.some.inj hfound
        cases hok
      · next return_value _ =>
          have hreturned : (syscall_context.returned return_value).mmap_record_present = true :=
            hpresent
          dsimp only at hfound
          rw [syscallHandler, if_pos hreturned] at hfound
          obtain rfl := Option.some.inj hfound
          cases hok

end Using

/-! ### From one call to the next -/

section Attribution

variable {unhex : String → Option String} {normalize : String → String} {unassigned : UInt32}
  {process_id : Int32} {n : UInt64} {opening using_it : AuditEvent}
  {syscall_context : SyscallContext} {use : Use}

/-- The path that is kept for the inode `j` after a file was opened at `n`. A result with too many
digits is not read, and nothing is saved. -/
def KeepsPath (inode_map : AuditdFimInodeMap) (n inode : UInt64) (path : String) (j : UInt64) :
    Prop :=
  if n.toNat < 10 ^ 16 then
    ¬Displaces 20000 inode_map inode j ∧
      (j = inode ∨ inode_map[j]?.map AuditdFimInodeDescriptor.path = some path)
  else inode_map[j]?.map AuditdFimInodeDescriptor.path = some path

/-- A call on the descriptor `n` finds the path of a file that was opened there: an entry that is
there already leads to this path, or there is none and `n` has one digit. -/
def Attributable (fim_context : AuditdFimContext) (process_id : ℤ) (n inode : UInt64)
    (path : String) : Prop :=
  match fim_context.process_map.getReference process_id n with
  | some fd_desc => KeepsPath fim_context.inode_map n inode path fd_desc.inode
  | none =>
      n.toNat < 10 ∧ ¬Erased fim_context.process_map process_id ∧
        ¬Displaces 20000 fim_context.inode_map inode inode

/-- The result of a call is read. -/
def Use.Readable : Use → Prop
  | .call result => result < 10 ^ 16
  | .mapping => False

/-- Nothing is known of the descriptors of a process whose entry is made and removed. -/
theorem not_attributable_of_erased {fim_context : AuditdFimContext} {process_id : ℤ}
    (h : Erased fim_context.process_map process_id) (n inode : UInt64) (path : String) :
    ¬Attributable fim_context process_id n inode path := by
  have hpid := h.1
  rw [Std.ExtTreeMap.mem_iff_isSome_getElem?, Bool.not_eq_true, Option.isSome_eq_false_iff,
    Option.isNone_iff_eq_none] at hpid
  rw [Attributable, AuditdFimProcessMap.getReference, hpid, Option.bind_none]
  exact fun hattributable => hattributable.2.1 h

/-- After a file was saved under its descriptor, an entry that was there is still the one that is
found, and a new one is found if the descriptor has one digit. -/
theorem leads_save_iff {fim_context : AuditdFimContext} {process_id : ℤ} {n : UInt64}
    (hn : n.toNat < 10 ^ 16) (hkept : ¬Erased fim_context.process_map process_id)
    (inode : UInt64) (path : String) (last_operation : OperationType) :
    Leads
        ⟨fim_context.process_map.save (UInt64.ofNat (reread 10 n.toNat)) process_id inode
            last_operation,
          fim_context.inode_map.save inode .File path⟩ process_id n path ↔
      Attributable fim_context process_id n inode path := by
  rw [Leads, Attributable, getReference_save hkept]
  cases fim_context.process_map.getReference process_id n with
  | some fd_desc =>
      simp only [Option.some_or, Option.some.injEq, exists_eq_left']
      rw [path_save_eq_some_iff, KeepsPath, if_pos hn]
      by_cases hj : fd_desc.inode = inode
      · simp [hj]
      · simp [hj]
  | none =>
      rw [Option.none_or]
      simp only [ofNat_reread_eq_iff hn]
      by_cases hdigit : n.toNat < 10
      · simp only [hdigit, if_true, Option.some.injEq, exists_eq_left', true_and]
        rw [path_save_eq_some_iff]
        simp [hkept]
      · simp [hdigit]

/-- Maps in which nothing is saved lead to what they led to before. -/
theorem leads_unsaved_iff {fim_context : AuditdFimContext} {n : UInt64}
    (hn : ¬n.toNat < 10 ^ 16) (process_id : ℤ) (inode : UInt64) (path : String) :
    Leads fim_context process_id n path ↔ Attributable fim_context process_id n inode path := by
  have hdigit : ¬n.toNat < 10 := by omega
  rw [Leads, Attributable]
  cases fim_context.process_map.getReference process_id n with
  | some fd_desc =>
      simp only [Option.some.injEq, exists_eq_left']
      rw [KeepsPath, if_neg hn]
  | none => simp [hdigit]

/-- The maps after the file was opened lead from the descriptor to the path. -/
theorem attributable_iff
    (hopens : Opens unhex unassigned process_id n opening syscall_context)
    (fim_context : AuditdFimContext) :
    (∃ after, contextAfter unhex normalize unassigned fim_context opening = some after ∧
      Leads after process_id.toInt n (openedPath normalize syscall_context)) ↔
      Attributable fim_context process_id.toInt n (openedInode syscall_context)
        (openedPath normalize syscall_context) := by
  obtain ⟨last_operation, hafter⟩ := contextAfter_opens hopens fim_context
  rw [hafter]
  by_cases hn : n.toNat < 10 ^ 16
  · rw [if_pos hn]
    split
    · next herased =>
        exact iff_of_false (by simp)
          (not_attributable_of_erased (usesErased_iff.mp herased) _ _ _)
    · next hkept =>
        simp only [Option.some.injEq, exists_eq_left']
        exact leads_save_iff hn (usesErased_iff.not.mp hkept) _ _ _
  · rw [if_neg hn]
    simp only [Option.some.injEq, exists_eq_left']
    exact leads_unsaved_iff hn _ _ _

/-- An event on the descriptor that an earlier event opened is given the path of the file exactly
when it is no mapping and the maps lead from the descriptor to that path. -/
theorem attributed_iff (fim_context : AuditdFimContext)
    (hopens : Opens unhex unassigned process_id n opening syscall_context)
    (huses : Uses unhex unassigned process_id n use using_it) :
    Attributed unhex normalize unassigned fim_context opening using_it
        (openedPath normalize syscall_context) ↔
      use.Readable ∧ Attributable fim_context process_id.toInt n (openedInode syscall_context)
        (openedPath normalize syscall_context) := by
  rw [Attributed, ← attributable_iff hopens]
  cases huses with
  | mapping htype hdata hpid hnumber hmem hrecord hfd =>
      refine iff_of_false ?_ fun h => h.1
      rintro ⟨after, -, hreported⟩
      exact not_reported_mapping hdata hnumber hmem hrecord after _ hreported
  | call result hread hpid hnumber huses hmapping hexit ha0 =>
      simp only [reported_call_iff hread hpid hnumber huses hmapping hexit ha0, Use.Readable]
      constructor
      · rintro ⟨after, hafter, hresult, hfound⟩
        exact ⟨hresult, after, hafter, hfound⟩
      · rintro ⟨hresult, after, hafter, hfound⟩
        exact ⟨after, hafter, hresult, hfound⟩

end Attribution

/-! ### A descriptor with one digit, and one with two -/

def callData (syscall_number : UInt64) : SyscallAuditEventData where
  syscall_number
  process_id := 7
  parent_process_id := 1
  executable_path := "/bin/sh"

/-- What the records of `openEvent` are read into. -/
def openContext (inode : ℕ) (name : String) : SyscallContext :=
  { initialContext 0 (callData 2) with
    path_record_map :=
      (∅ : Std.ExtTreeMap ℕ AuditdFimPathRecordItem).insert 0
        { index := 0, inode := UInt64.ofNat inode, path := name } }

theorem opens_3 : Opens decodeText 0 7 3 (openEvent 3 100 "/tmp/a") (openContext 100 "/tmp/a") where
  read := ⟨auditRecord AUDIT_SYSCALL [("a1", "1"), ("exit", "3")], by decide +kernel, rfl⟩
  number := Or.inl rfl
  process_id := rfl
  items := by decide

theorem opens_10 :
    Opens decodeText 0 7 10 (openEvent 10 100 "/tmp/a") (openContext 100 "/tmp/a") where
  read := ⟨auditRecord AUDIT_SYSCALL [("a1", "1"), ("exit", "10")], by decide +kernel, rfl⟩
  number := Or.inl rfl
  process_id := rfl
  items := by decide

theorem uses_3 : Uses decodeText 0 7 3 (.call 1) (writeEvent 3) := by
  refine @Uses.call decodeText 0 7 3 (writeEvent 3) (initialContext 0 (callData 1))
    (auditRecord AUDIT_SYSCALL [("a0", "3"), ("exit", "1")]) .nr_write 1 ?_ rfl rfl trivial
    (by decide) rfl rfl
  decide +kernel

theorem uses_10 : Uses decodeText 0 7 10 (.call 1) (writeEvent 10) := by
  refine @Uses.call decodeText 0 7 10 (writeEvent 10) (initialContext 0 (callData 1))
    (auditRecord AUDIT_SYSCALL [("a0", "a"), ("exit", "1")]) .nr_write 1 ?_ rfl rfl trivial
    (by decide) rfl rfl
  decide +kernel

theorem attributed_iff_3 :
    Attributed decodeText id 0 {} (openEvent 3 100 "/tmp/a") (writeEvent 3)
        (openedPath id (openContext 100 "/tmp/a")) ↔
      (Use.call 1).Readable ∧ Attributable {} (7 : Int32).toInt 3
        (openedInode (openContext 100 "/tmp/a")) (openedPath id (openContext 100 "/tmp/a")) :=
  attributed_iff {} opens_3 uses_3

/-- A write to the descriptor 10 is not given the path of the file that was opened at 10. -/
theorem tenth_descriptor_lost :
    ¬∀ (fim_context : AuditdFimContext) (process_id : Int32) (n : UInt64)
      (opening using_it : AuditEvent) (syscall_context : SyscallContext) (use : Use),
      Opens decodeText 0 process_id n opening syscall_context →
        Uses decodeText 0 process_id n use using_it →
          Attributed decodeText id 0 fim_context opening using_it
            (openedPath id syscall_context) := by
  intro hall
  obtain ⟨after, hafter, outcome, _, _, hhandle, hok, _⟩ :=
    hall {} 7 10 _ _ _ _ opens_10 uses_10
  have hfailed : ((contextAfter decodeText id 0 {} (openEvent 10 100 "/tmp/a")).bind fun after =>
      (handleEvent decodeText id 0 after (writeEvent 10)).map fun handled =>
        handled.map Outcome.ok) = some (some false) := by
    decide +kernel
  rw [hafter, Option.bind_some, hhandle, Option.map_some, Option.map_some, hok] at hfailed
  cases hfailed

end Osquery.FileEvents.Monitoring
