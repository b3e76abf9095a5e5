import Osquery.FileEvents.Descriptors
import Osquery.Foundation.DescriptorTables

/-!
# Descriptors that are tracked against descriptors of the kernel

The maps of the processes are an observer of the descriptor tables: handling the record
of a call that succeeded notes the call. As long as every call finds no entry of another
file where it puts a descriptor, each descriptor of an opened file is mapped to the inode
of that file. An entry is in the way when a descriptor was replaced, and when an exited
process left its map to a new one with its id.

## Implementation notes

A report pairs a call that succeeded with its record; the exit of a process has none. The
inode of an opened file is that of the item which the handler documents for the call.
-/

namespace Osquery.FileEvents

open Foundation.DescriptorTables Foundation.Changes

/-! ### What the maps know -/

/-- The inodes that are kept for the descriptors of a process. -/
def inodes (data : AuditdFimFdMap) (fd : UInt64) : Option UInt64 :=
  data[fd]?.map AuditdFimFdDescriptor.inode

def known (process_map : AuditdFimProcessMap) : Known ℤ UInt64 UInt64 := fun process_id =>
  process_map[process_id]?.map inodes

theorem file_known (process_map : AuditdFimProcessMap) (process_id : ℤ) (fd : UInt64) :
    (known process_map).file process_id fd =
      (process_map.getReference process_id fd).map AuditdFimFdDescriptor.inode := by
  rw [Known.file, known, AuditdFimProcessMap.getReference]
  cases process_map[process_id]? <;> rfl

theorem known_insert (process_map : AuditdFimProcessMap) (process_id : ℤ)
    (fd_map : AuditdFimFdMap) :
    known (process_map.insert process_id fd_map) =
      Function.update (known process_map) process_id (some (inodes fd_map)) := by
  ext1 p
  by_cases hp : p = process_id
  · simp [known, hp]
  · simp [known, hp, Std.ExtTreeMap.getElem?_insert, Ne.symm hp]

theorem inodes_insertIfNew (data : AuditdFimFdMap) (fd : UInt64)
    (fd_desc : AuditdFimFdDescriptor) :
    inodes (data.insertIfNew fd fd_desc) =
      Function.update (inodes data) fd ((inodes data fd).or (some fd_desc.inode)) := by
  ext1 d
  by_cases hd : d = fd
  · subst d
    rw [inodes, getElem?_insertIfNew_eq, if_pos rfl]
    cases hfd : data[fd]? <;> simp [inodes, hfd]
  · rw [inodes, getElem?_insertIfNew_eq, if_neg hd]
    simp [inodes, hd]

theorem inodes_erase (data : AuditdFimFdMap) (fd : UInt64) :
    inodes (data.erase fd) = Function.update (inodes data) fd none := by
  ext1 d
  by_cases hd : d = fd
  · simp [inodes, hd]
  · simp [inodes, Std.ExtTreeMap.getElem?_erase, hd, Ne.symm hd]

/-! ### The maps note the calls -/

namespace AuditdFimProcessMap

theorem limit_of_le {data : AuditdFimProcessMap} (h : data.size ≤ 4096) : data.limit = data :=
  if_neg (by omega)

theorem known_save {data : AuditdFimProcessMap} {process_id : ℤ}
    (h : process_id ∈ data ∨ data.size < 4096) (fd inode : UInt64)
    (last_operation : OperationType) :
    known (data.save fd process_id inode last_operation) =
      (known data).save process_id fd inode := by
  cases hdata : data[process_id]? with
  | none =>
      have hnew : process_id ∉ data := by
        rw [Std.ExtTreeMap.mem_iff_isSome_getElem?, hdata]
        simp
      have hsize : (data.insert process_id ∅).size ≤ 4096 := by
        have hlt := h.resolve_left hnew
        simp only [Std.ExtTreeMap.size_insert, Std.ExtTreeMap.contains_iff_mem, hnew, if_false]
        omega
      have hempty : inodes ∅ = fun _ => none := by
        ext1 d
        simp [inodes]
      have hsave : data.save fd process_id inode last_operation =
          (data.insert process_id ∅).insert process_id
            (AuditdFimFdMap.save ∅ fd inode last_operation) := by
        simp [save, hdata, limit_of_le hsize]
      rw [hsave, known_insert, known_insert, AuditdFimFdMap.save, inodes_insertIfNew, hempty]
      simp [Known.save, Known.file, known, hdata]
  | some fd_map =>
      have hsave : data.save fd process_id inode last_operation =
          data.insert process_id (fd_map.save fd inode last_operation) := by
        simp [save, hdata]
      rw [hsave, known_insert, AuditdFimFdMap.save, inodes_insertIfNew]
      simp [Known.save, Known.file, known, hdata]

theorem known_duplicate (data : AuditdFimProcessMap) (process_id : ℤ) (fd new_fd : UInt64) :
    known ((data.duplicate process_id fd new_fd).getD data) =
      (known data).copy process_id fd new_fd := by
  cases hdata : data[process_id]? with
  | none => simp [duplicate, Known.copy, Known.file, known, hdata]
  | some fd_map =>
      cases hfd : fd_map[fd]? with
      | none =>
          simp [duplicate, AuditdFimFdMap.duplicate, Known.copy, Known.file, known, inodes, hdata,
            hfd]
      | some fd_desc =>
          have hfile : (known data).file process_id fd = some fd_desc.inode := by
            simp [Known.file, known, inodes, hdata, hfd]
          have hduplicate : (data.duplicate process_id fd new_fd).getD data =
              data.insert process_id (fd_map.insertIfNew new_fd fd_desc) := by
            simp [duplicate, AuditdFimFdMap.duplicate, hdata, hfd]
          rw [hduplicate, known_insert, inodes_insertIfNew, Known.copy, hfile]
          simp [Known.save, Known.file, known, hdata]

theorem known_clone (data : AuditdFimProcessMap) (old_pid new_pid : ℤ) :
    known ((data.clone old_pid new_pid).getD data) = (known data).copyAll old_pid new_pid := by
  cases hold : data[old_pid]? with
  | none => simp [clone, Known.copyAll, known, hold]
  | some fd_map =>
      have hclone : (data.clone old_pid new_pid).getD data = data.insertIfNew new_pid fd_map := by
        simp [clone, hold]
      ext1 p
      rw [hclone, known, getElem?_insertIfNew_eq]
      by_cases hp : p = new_pid
      · subst p
        cases hnew : data[new_pid]? <;> simp [Known.copyAll, known, hold, hnew]
      · simp [Known.copyAll, known, hp]

theorem known_takeAndRemove (data : AuditdFimProcessMap) (process_id : ℤ) (fd : UInt64) :
    known (((data.takeAndRemove process_id fd).map Prod.snd).getD data) =
      (known data).remove process_id fd := by
  cases hdata : data[process_id]? with
  | none => simp [takeAndRemove, Known.remove, known, hdata]
  | some fd_map =>
      cases hfd : fd_map[fd]? with
      | none =>
          have hupdate : Function.update (inodes fd_map) fd none = inodes fd_map := by
            simp [inodes, hfd]
          simp [takeAndRemove, AuditdFimFdMap.takeAndRemove, Known.remove, known, hdata, hfd,
            hupdate]
      | some fd_desc =>
          have htake : ((data.takeAndRemove process_id fd).map Prod.snd).getD data =
              data.insert process_id (fd_map.erase fd) := by
            simp [takeAndRemove, AuditdFimFdMap.takeAndRemove, hdata, hfd]
          rw [htake, known_insert, inodes_erase]
          simp [Known.remove, known, hdata]

end AuditdFimProcessMap

/-! ### Records of calls that succeeded -/

/-- The record names the opened file where the handler looks for it. -/
def Syscall.Names (call : Syscall) (inode : UInt64) : Prop :=
  match call.syscall_number with
  | .nr_open | .nr_openat =>
      call.path_record_map.size = 1 ∧ (call.item 0).inode = inode ∨
        call.path_record_map.size = 2 ∧ (call.item 1).inode = inode ∨
          call.path_record_map.size = 3 ∧ (call.item 0).inode = inode
  | .nr_creat => call.path_record_map.size = 2 ∧ (call.item 1).inode = inode
  | _ => False

/-- The record that a call leaves when it succeeds. -/
def Reported : Call ℤ UInt64 UInt64 → Option Syscall → Prop
  | .opens process_id fd inode, some call =>
      call.process_id = process_id ∧ call.exit = some fd ∧ call.Names inode
  | .closes process_id fd, some call =>
      call.process_id = process_id ∧ call.exit = some 0 ∧ call.a0 = some fd ∧
        call.syscall_number = .nr_close
  | .dups process_id fd new_fd, some call =>
      call.process_id = process_id ∧ call.exit = some new_fd ∧ call.a0 = some fd ∧
        call.syscall_number = .nr_dup
  | .replaces process_id fd new_fd, some call =>
      call.process_id = process_id ∧ call.exit = some new_fd ∧ call.a0 = some fd ∧
        call.a1 = some new_fd ∧
          (call.syscall_number = .nr_dup2 ∨ call.syscall_number = .nr_dup3 ∧ fd ≠ new_fd)
  | .forks process_id child, some call =>
      call.process_id = process_id ∧ call.exit.map toPid = some child ∧
        (call.syscall_number = .nr_fork ∨ call.syscall_number = .nr_vfork)
  | .exits _, none => True
  | _, _ => False

structure Report where
  call : Call ℤ UInt64 UInt64
  syscall : Option Syscall
  reported : Reported call syscall

section Runs

variable (normalize : String → String)

def Report.handle (fim_context : AuditdFimContext) (report : Report) : AuditdFimContext :=
  match report.syscall with
  | none => fim_context
  | some call => (auditSyscallRecordHandler normalize fim_context call).fim_context

/-- A call does not bring in a process beyond the limit. -/
def BelowLimit (process_map : AuditdFimProcessMap) : Call ℤ UInt64 UInt64 → Prop
  | .opens process_id _ _ => process_id ∈ process_map ∨ process_map.size < 4096
  | _ => True

theorem openedItem_of_names (fim_context : AuditdFimContext) {call : Syscall} {inode : UInt64}
    (h : call.Names inode) :
    ∃ cwd item, openedItem fim_context call = some (cwd, item) ∧ item.inode = inode := by
  unfold Syscall.Names at h
  cases hnumber : call.syscall_number <;> simp only [hnumber] at h
  case nr_open | nr_openat =>
    obtain ⟨hsize, hinode⟩ | ⟨hsize, hinode⟩ | ⟨hsize, hinode⟩ := h <;>
      simp [openedItem, hnumber, hsize, hinode]
  case nr_creat =>
    simp [openedItem, hnumber, h.1, h.2]

theorem process_map_handleOpen (fim_context : AuditdFimContext) {call : Syscall} {inode : UInt64}
    (h : call.Names inode) (fd : UInt64) :
    ∃ last_operation, (handleOpenOrCreateSyscallRecord normalize fim_context call
      fd).fim_context.process_map =
        fim_context.process_map.save fd call.process_id inode last_operation := by
  obtain ⟨cwd, item, hitem, rfl⟩ := openedItem_of_names fim_context h
  simp only [handleOpenOrCreateSyscallRecord, hitem]
  exact ⟨_, rfl⟩

theorem process_map_handleDup (fim_context : AuditdFimContext) {call : Syscall} {fd : UInt64}
    (h : call.a0 = some fd) (new_fd : UInt64) :
    (handleDupSyscallRecord fim_context call new_fd).fim_context.process_map =
      (fim_context.process_map.duplicate call.process_id fd new_fd).getD
        fim_context.process_map := by
  simp only [handleDupSyscallRecord, h]
  cases fim_context.process_map.duplicate call.process_id fd new_fd <;> rfl

theorem process_map_handleClose (fim_context : AuditdFimContext) {call : Syscall} {fd : UInt64}
    (h : call.a0 = some fd) :
    (handleCloseSyscallRecord fim_context call).fim_context.process_map =
      ((fim_context.process_map.takeAndRemove call.process_id fd).map Prod.snd).getD
        fim_context.process_map := by
  simp only [handleCloseSyscallRecord, h]
  cases fim_context.process_map.takeAndRemove call.process_id fd with
  | none => rfl
  | some taken =>
      dsimp only
      cases fim_context.inode_map[taken.1.inode]? <;> rfl

theorem process_map_handleClone (fim_context : AuditdFimContext) {call : Syscall}
    {return_value : UInt64} (hexit : call.exit = some return_value)
    (hnumber : call.syscall_number = .nr_fork ∨ call.syscall_number = .nr_vfork) :
    (auditSyscallRecordHandler normalize fim_context call).fim_context.process_map =
      (fim_context.process_map.clone call.process_id (toPid return_value)).getD
        fim_context.process_map := by
  obtain hnumber | hnumber := hnumber <;>
    simp only [auditSyscallRecordHandler, hexit, hnumber] <;>
    cases fim_context.process_map.clone call.process_id (toPid return_value) <;> rfl

/-- Handling the record of a call notes the call. -/
theorem known_handle {fim_context : AuditdFimContext} {report : Report}
    (h : BelowLimit fim_context.process_map report.call) :
    known (report.handle normalize fim_context).process_map =
      (known fim_context.process_map).note report.call := by
  obtain ⟨call, syscall, hreported⟩ := report
  cases syscall with
  | none =>
      cases call <;> first | exact hreported.elim | rfl
  | some syscall =>
      cases call with
      | opens process_id fd inode =>
          obtain ⟨rfl, hexit, hnames⟩ := hreported
          obtain ⟨last_operation, hopen⟩ :=
            process_map_handleOpen normalize fim_context hnames fd
          have hhandle : auditSyscallRecordHandler normalize fim_context syscall =
              handleOpenOrCreateSyscallRecord normalize fim_context syscall fd := by
            unfold Syscall.Names at hnames
            cases hnumber : syscall.syscall_number <;> simp only [hnumber] at hnames <;>
              simp [auditSyscallRecordHandler, hexit, hnumber]
          simp only [Report.handle, hhandle, hopen]
          exact AuditdFimProcessMap.known_save h fd inode last_operation
      | closes process_id fd =>
          obtain ⟨rfl, hexit, ha0, hnumber⟩ := hreported
          simp only [Report.handle, auditSyscallRecordHandler, hexit, hnumber,
            process_map_handleClose fim_context ha0]
          exact AuditdFimProcessMap.known_takeAndRemove _ _ fd
      | dups process_id fd new_fd =>
          obtain ⟨rfl, hexit, ha0, hnumber⟩ := hreported
          simp only [Report.handle, auditSyscallRecordHandler, hexit, hnumber,
            process_map_handleDup fim_context ha0]
          exact AuditdFimProcessMap.known_duplicate _ _ fd new_fd
      | replaces process_id fd new_fd =>
          obtain ⟨rfl, hexit, ha0, -, hnumber⟩ := hreported
          have hhandle : (auditSyscallRecordHandler normalize fim_context syscall).fim_context =
              (handleDupSyscallRecord fim_context syscall new_fd).fim_context := by
            obtain hnumber | ⟨hnumber, -⟩ := hnumber <;>
              simp [auditSyscallRecordHandler, hexit, hnumber]
          simp only [Report.handle, hhandle, process_map_handleDup fim_context ha0]
          exact AuditdFimProcessMap.known_duplicate _ _ fd new_fd
      | forks process_id child =>
          obtain ⟨rfl, hchild, hnumber⟩ := hreported
          obtain ⟨return_value, hexit, rfl⟩ := Option.map_eq_some_iff.mp hchild
          simp only [Report.handle, process_map_handleClone normalize fim_context hexit hnumber]
          exact AuditdFimProcessMap.known_clone _ _ _
      | exits process_id => exact hreported.elim

/-! ### Runs -/

/-- The tables of the kernel beside the context of the handler. -/
structure Traced where
  tables : Tables ℤ UInt64 UInt64
  fim_context : AuditdFimContext

def Traced.next (s : Traced) (report : Report) : Traced where
  tables := report.call.after s.tables
  fim_context := report.handle normalize s.fim_context

/-- From the initial context. -/
def traced (tables : Tables ℤ UInt64 UInt64) (reports : List Report) : Traced :=
  reports.foldl (Traced.next normalize) ⟨tables, {}⟩

/-- The call can succeed, below the limit of the processes. -/
def Possible (s : Traced) (report : Report) : Prop :=
  report.call.Succeeds s.tables ∧ BelowLimit s.fim_context.process_map report.call

/-- Every descriptor of an opened file is mapped to the inode of the file. -/
def Simulates (s : Traced) : Prop :=
  ∀ process_id fd inode, s.tables.target process_id fd = some (.opened inode) →
    (s.fim_context.process_map.getReference process_id fd).map AuditdFimFdDescriptor.inode =
      some inode

/-- No entry of another file is where the call puts a descriptor of an opened file. -/
def Unobstructed (s : Traced) (report : Report) : Prop :=
  Vacant s.tables (known s.fim_context.process_map) report.call

theorem simulates_iff_tracks (s : Traced) :
    Simulates s ↔ Tracks s.tables (known s.fim_context.process_map) := by
  simp only [Simulates, Tracks, file_known]

theorem simulates_next_iff {s : Traced} (hs : Simulates s) {report : Report}
    (h : Possible s report) : Simulates (s.next normalize report) ↔ Unobstructed s report := by
  rw [simulates_iff_tracks] at hs ⊢
  rw [Unobstructed, ← tracks_note_iff hs h.1, ← known_handle normalize h.2]
  rfl

/-- The maps simulate the tables of the kernel throughout a sequence of calls exactly when
no call of the sequence finds an entry of another file in its way. -/
theorem simulates_iff_unobstructed {tables : Tables ℤ UInt64 UInt64}
    (hinherited : ∀ process_id fd inode, tables.target process_id fd ≠ some (.opened inode))
    {reports : List Report}
    (hpossible : ∀ seen report rest, reports = seen ++ report :: rest →
      Possible (traced normalize tables seen) report) :
    (∀ seen rest, reports = seen ++ rest → Simulates (traced normalize tables seen)) ↔
      ∀ seen report rest, reports = seen ++ report :: rest →
        Unobstructed (traced normalize tables seen) report := by
  have hstep : ∀ s report, Simulates s → Possible s report →
      (Simulates (s.next normalize report) ↔ Unobstructed s report) :=
    fun s report hs h => simulates_next_iff normalize hs h
  apply good_iff_safe hstep
  · exact fun process_id fd inode h => absurd h (hinherited process_id fd inode)
  · exact hpossible

end Runs

def openReport (process_id : ℤ) (fd inode : UInt64) (path : String) : Report where
  call := .opens process_id fd inode
  syscall := some
    { syscall_number := .nr_open
      process_id
      path_record_map := (∅ : Std.ExtTreeMap ℕ AuditdFimPathRecordItem).insert 0 { inode, path }
      exit := some fd }
  reported := ⟨rfl, rfl, .inl ⟨by simp [Std.ExtTreeMap.size_insert], by simp [Syscall.item]⟩⟩

/-- Process 7 alone, with no descriptors. -/
def newProcess : Tables ℤ UInt64 UInt64 := fun p => if p = 7 then some fun _ => none else none

def forkReport (process_id : ℤ) (child : UInt64) : Report where
  call := .forks process_id (toPid child)
  syscall := some { syscall_number := .nr_fork, process_id, exit := some child }
  reported := ⟨rfl, rfl, .inl rfl⟩

def dup2Report (process_id : ℤ) (fd new_fd : UInt64) : Report where
  call := .replaces process_id fd new_fd
  syscall := some
    { syscall_number := .nr_dup2
      process_id
      a0 := some fd
      a1 := some new_fd
      exit := some new_fd }
  reported := ⟨rfl, rfl, rfl, rfl, .inl rfl⟩

/-- Process 7 opens a file and forks, and the child duplicates its descriptor. -/
def forking : List Report := [openReport 7 3 100 "/a", forkReport 7 8, dup2Report 8 3 4]

theorem simulates_iff_unobstructed_open :
    (∀ seen rest, forking = seen ++ rest → Simulates (traced id newProcess seen)) ↔
      ∀ seen report rest, forking = seen ++ report :: rest →
        Unobstructed (traced id newProcess seen) report := by
  apply simulates_iff_unobstructed id
  · intro p d f h
    by_cases hp : p = 7
    · simp [Tables.target, newProcess, hp] at h
    · simp [Tables.target, newProcess, hp] at h
  · simp only [forking, forall_split_cons]
    refine ⟨⟨⟨?_, rfl⟩, .inr (by decide)⟩, ⟨⟨?_, rfl⟩, trivial⟩, ⟨?_, trivial⟩, by simp⟩
    all_goals exact Option.some_ne_none _

/-! ### A descriptor that is replaced -/

/-- Process 7 opens two files and puts the first one in place of the second. -/
def replacing : List Report := [openReport 7 3 100 "/a", openReport 7 4 200 "/b", dup2Report 7 3 4]

theorem replaced_not_simulated :
    (∀ seen report rest, replacing = seen ++ report :: rest →
      Possible (traced id newProcess seen) report) ∧
      ¬ Simulates (traced id newProcess replacing) := by
  constructor
  · simp only [replacing, forall_split_cons]
    refine ⟨⟨⟨?_, rfl⟩, .inr (by decide)⟩, ⟨⟨?_, rfl⟩, .inl (by decide)⟩, ⟨?_, trivial⟩, by simp⟩
    all_goals exact Option.some_ne_none _
  · intro h
    have h4 := h 7 4 100 rfl
    revert h4
    decide

end Osquery.FileEvents
