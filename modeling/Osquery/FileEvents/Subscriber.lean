import Osquery.FileEvents.Monitoring
import Osquery.Foundation.DescriptorTables

/-!
# The table of file events

The subscriber reads the records of every event of a call into a context, hands it to the
handler of the call, and turns what the handler leaves into a row. Lists of events are handled
one after another, and keep their maps.

## Implementation notes

No result stands for what ends the process: besides what ends a handler, the wrong alternative
of the data is unpacked. The included paths, the text of the uptime and what is read of a user
that was never assigned are inputs. Of the debug output there is what it unpacks.
-/

namespace Osquery.FileEvents.Monitoring

open EventPublishers AuditTables Foundation.Numeral Foundation.Hexadecimal
open Foundation.PartialRuns Core.Rows

/-! ### Events -/

section Subscriber

variable (unhex : String → Option String) (normalize : String → String) (unassigned : UInt32)

def initialContext (event_data : SyscallAuditEventData) : SyscallContext where
  syscall_number := event_data.syscall_number
  process_id := event_data.process_id
  parent_process_id := event_data.parent_process_id
  process_uid := event_data.process_uid.getD unassigned
  process_gid := event_data.process_gid.getD unassigned
  process_euid := event_data.process_euid.getD unassigned
  process_egid := event_data.process_egid.getD unassigned
  executable_path := event_data.executable_path

/-- The context and the record of the call of an event. Inside, no result means that the event is
passed over. -/
def readEvent (event : AuditEvent) : Option (Option (SyscallContext × AuditEventRecord)) :=
  if event.type ≠ .syscall then some none
  else
    (getSyscallData event).map fun event_data =>
      if shouldHandle event_data.syscall_number then
        (event.record_list.foldlM (readRecord unhex)
          ⟨initialContext unassigned event_data, none⟩).bind fun s =>
            s.syscall_record.map fun record => (s.syscall_context, record)
      else none

/-- What the records of an event do not change. -/
structure ReadFor (event_data : SyscallAuditEventData) (syscall_context : SyscallContext) :
    Prop where
  syscall_number : syscall_context.syscall_number = event_data.syscall_number
  process_id : syscall_context.process_id = event_data.process_id
  partially : syscall_context.partially = false
  syscall_data : syscall_context.syscall_data = .src_dest {}

theorem readFor_initialContext (event_data : SyscallAuditEventData) :
    ReadFor event_data (initialContext unassigned event_data) := ⟨rfl, rfl, rfl, rfl⟩

variable {unhex unassigned}

theorem readFor_readRecord {event_data : SyscallAuditEventData} {s s' : Reading}
    {record : AuditEventRecord} (hs : ReadFor event_data s.syscall_context)
    (h : readRecord unhex s record = some s') : ReadFor event_data s'.syscall_context := by
  obtain ⟨hnumber, hpid, hpartially, hdata⟩ := hs
  unfold readRecord at h
  split at h
  · obtain rfl := Option.some.inj h
    exact ⟨hnumber, hpid, hpartially, hdata⟩
  · split at h
    · obtain ⟨buffer, -, rfl⟩ := Option.map_eq_some_iff.mp h
      exact ⟨hnumber, hpid, hpartially, hdata⟩
    · split at h
      · obtain ⟨output, -, rfl⟩ := Option.map_eq_some_iff.mp h
        exact ⟨hnumber, hpid, hpartially, hdata⟩
      · split at h
        · obtain ⟨read, hread, rfl⟩ := Option.map_eq_some_iff.mp h
          obtain ⟨fd, -, rfl⟩ := Option.map_eq_some_iff.mp hread
          exact ⟨hnumber, hpid, hpartially, hdata⟩
        · obtain rfl := Option.some.inj h
          exact ⟨hnumber, hpid, hpartially, hdata⟩

theorem readEvent_eq_some_iff {event : AuditEvent} {syscall_context : SyscallContext}
    {record : AuditEventRecord} :
    readEvent unhex unassigned event = some (some (syscall_context, record)) ↔
      event.type = .syscall ∧
        ∃ event_data, getSyscallData event = some event_data ∧
          shouldHandle event_data.syscall_number = true ∧
            event.record_list.foldlM (readRecord unhex)
              ⟨initialContext unassigned event_data, none⟩ =
                some ⟨syscall_context, some record⟩ := by
  rw [readEvent]
  constructor
  · intro h
    split at h
    · cases h
    · next htype =>
        obtain ⟨event_data, hdata, h⟩ := Option.map_eq_some_iff.mp h
        split at h
        · next hhandle =>
            obtain ⟨s, hread, h⟩ := Option.bind_eq_some_iff.mp h
            obtain ⟨found, hrecord, hpair⟩ := Option.map_eq_some_iff.mp h
            obtain ⟨rfl, rfl⟩ := Prod.mk.inj hpair
            refine ⟨not_not.mp htype, event_data, hdata, hhandle, ?_⟩
            rw [hread, ← hrecord]
        · cases h
  · rintro ⟨htype, event_data, hdata, hhandle, hread⟩
    rw [if_neg (not_not.mpr htype), hdata, Option.map_some, if_pos hhandle, hread]
    rfl

theorem readFor_readEvent {event : AuditEvent} {syscall_context : SyscallContext}
    {record : AuditEventRecord}
    (h : readEvent unhex unassigned event = some (some (syscall_context, record))) :
    ∃ event_data, getSyscallData event = some event_data ∧ ReadFor event_data syscall_context := by
  obtain ⟨-, event_data, hdata, -, hread⟩ := readEvent_eq_some_iff.mp h
  have hstep : ∀ s record s', ReadFor event_data s.syscall_context →
      readRecord unhex s record = some s' → ReadFor event_data s'.syscall_context :=
    fun s record s' hs h => readFor_readRecord hs h
  have hinitial := readFor_initialContext unassigned event_data
  exact ⟨event_data, hdata, good_of_steps hstep hinitial hread⟩

variable (unhex unassigned)

/-- What is left of an event, unless it is passed over. -/
def handleEvent (fim_context : AuditdFimContext) (event : AuditEvent) : Option (Option Outcome) :=
  match readEvent unhex unassigned event with
  | none => none
  | some none => some none
  | some (some (syscall_context, record)) =>
      (auditSyscallRecordHandler normalize fim_context syscall_context record).map some

/-- The maps that an event leaves. -/
def contextAfter (fim_context : AuditdFimContext) (event : AuditEvent) : Option AuditdFimContext :=
  (handleEvent unhex normalize unassigned fim_context event).map fun handled =>
    (handled.map Outcome.fim_context).getD fim_context

/-- The event is handled, and given the path of a file. -/
def Reported (fim_context : AuditdFimContext) (event : AuditEvent) (path : String) : Prop :=
  ∃ outcome type state_changed,
    handleEvent unhex normalize unassigned fim_context event = some (some outcome) ∧
      outcome.ok = true ∧
        outcome.syscall_context.syscall_data = .io ⟨path, type, state_changed⟩

end Subscriber

/-! ### Rows -/

structure Flags where
  audit_show_partial_fim_events : Bool := false
  audit_fim_show_accesses : Bool := false
  audit_fim_debug : Bool := false

def IOType.operation : IOType → String × Bool
  | .Open => ("open", false)
  | .OpenTruncate => ("open+truncate", true)
  | .Read => ("read", false)
  | .Write => ("write", true)
  | .Unlink => ("unlink", true)
  | .Close => ("close", false)

/-- The columns that the data are shown in, and whether the operation writes. -/
def dataColumns (syscall_context : SyscallContext) : Option (Option (Row × Bool)) :=
  match syscall_context.type with
  | .Symlink | .Rename | .Link =>
      match syscall_context.syscall_data with
      | .io _ => none
      | .src_dest data =>
          let operation :=
            match syscall_context.type with
            | .Symlink => "symlink"
            | .Rename => "rename"
            | _ => "link"
          some (some
            (Std.ExtTreeMap.ofList
              [("operation", operation), ("path", data.source), ("dest_path", data.destination)],
              true))
  | .Unlink | .Read | .Write | .Open | .OpenTruncate | .Close | .Truncate | .Mmap =>
      match syscall_context.syscall_data with
      | .src_dest _ => none
      | .io data =>
          if !data.state_changed then some none
          else
            some (some
              (Std.ExtTreeMap.ofList
                [("operation", data.type.operation.1), ("path", data.target)],
                data.type.operation.2))
  | .Dup | .NameToHandleAt | .CloneOrFork => some none

/-- A signed number is shown as an unsigned one. -/
def pidText (process_id : Int32) : String := toText process_id.toInt64.toUInt64.toNat

def processColumns (uptime : String) (row : Row) (syscall_context : SyscallContext) : Row :=
  let row := row.insert "pid" (pidText syscall_context.process_id)
  let row := row.insert "ppid" (pidText syscall_context.parent_process_id)
  let row := row.insert "uid" (toText syscall_context.process_uid.toNat)
  let row := row.insert "euid" (toText syscall_context.process_euid.toNat)
  let row := row.insert "gid" (toText syscall_context.process_gid.toNat)
  let row := row.insert "egid" (toText syscall_context.process_egid.toNat)
  let row := row.insert "executable" syscall_context.executable_path
  let row := row.insert "partial" (if syscall_context.partially then "true" else "false")
  let row := row.insert "cwd" syscall_context.cwd
  row.insert "uptime" uptime

section Rows

variable (flags : Flags) (included_path_list : List String) (uptime : String)

def isPathIncluded (row : Row) : Bool :=
  row["path"]?.any (included_path_list.contains ·) ||
    row["dest_path"]?.any (included_path_list.contains ·)

/-- Inside, no result means that there is no row. -/
def emitRowFromSyscallContext (syscall_context : SyscallContext) : Option (Option Row) :=
  if !flags.audit_show_partial_fim_events && syscall_context.partially then some none
  else
    (dataColumns syscall_context).map fun columns =>
      columns.bind fun shown =>
        if !isPathIncluded included_path_list shown.1 then none
        else if !flags.audit_fim_show_accesses && !shown.2 then none
        else some (processColumns uptime shown.1 syscall_context)

/-- The debug output unpacks the data of some calls. -/
def printable (syscall_context : SyscallContext) : Bool :=
  match syscall_context.type, syscall_context.syscall_data with
  | .Rename, .io _ => false
  | .Unlink, .src_dest _ | .Read, .src_dest _ | .Write, .src_dest _ | .Open, .src_dest _
  | .Close, .src_dest _ => false
  | _, _ => true

/-- The row of what is left of an event. -/
def emitOutcome (outcome : Outcome) : Option (Option Row) :=
  if !outcome.ok then some none
  else if flags.audit_fim_debug && !printable outcome.syscall_context then none
  else if outcome.skip_row_emission then some none
  else emitRowFromSyscallContext flags included_path_list uptime outcome.syscall_context

variable (unhex : String → Option String) (normalize : String → String) (unassigned : UInt32)

def processEvent (fim_context : AuditdFimContext) (event : AuditEvent) :
    Option (AuditdFimContext × List Row) :=
  (handleEvent unhex normalize unassigned fim_context event).bind fun handled =>
    match handled with
    | none => some (fim_context, [])
    | some outcome =>
        (emitOutcome flags included_path_list uptime outcome).map fun row =>
          (outcome.fim_context, row.toList)

def processEvents (fim_context : AuditdFimContext) (event_list : List AuditEvent) :
    Option (AuditdFimContext × List Row) :=
  event_list.foldlM
    (emitting (processEvent flags included_path_list uptime unhex normalize unassigned))
    (fim_context, [])

/-- Lists of events, one after another. -/
def processLists (fim_context : AuditdFimContext) (lists : List (List AuditEvent)) :
    Option (AuditdFimContext × List Row) :=
  lists.foldlM
    (emitting (processEvents flags included_path_list uptime unhex normalize unassigned))
    (fim_context, [])

/-- How the events are put into lists does not matter. -/
theorem processLists_eq (fim_context : AuditdFimContext) (lists : List (List AuditEvent)) :
    processLists flags included_path_list uptime unhex normalize unassigned fim_context lists =
      processEvents flags included_path_list uptime unhex normalize unassigned fim_context
        lists.flatten :=
  foldlM_emitting_flatten
    (processEvent flags included_path_list uptime unhex normalize unassigned) lists
    (fim_context, [])

end Rows

/-! ### Events of process 7 -/

def auditRecord (type : ℤ) (fields : List (String × String)) : AuditEventRecord :=
  ⟨type, 0, "1502573850.697:38396", Std.ExtTreeMap.ofList fields, ""⟩

def pathRecord (item inode : ℕ) (name : String) : AuditEventRecord :=
  auditRecord AUDIT_PATH
    [("item", toText item), ("inode", toText inode), ("name", "\"" ++ name ++ "\"")]

def syscallEvent (syscall_number : UInt64) (fields : List (String × String))
    (records : List AuditEventRecord) : AuditEvent where
  type := .syscall
  data := .syscall
    { syscall_number
      process_id := 7
      parent_process_id := 1
      executable_path := "/bin/sh" }
  record_list := auditRecord AUDIT_SYSCALL fields :: records

/-- A descriptor of a file is opened for writing. -/
def openEvent (fd inode : ℕ) (name : String) : AuditEvent :=
  syscallEvent 2 [("a1", "1"), ("exit", toText fd)] [pathRecord 0 inode name]

def writeEvent (fd : ℕ) : AuditEvent :=
  syscallEvent 1 [("a0", hexNumeral fd), ("exit", "1")] []

end Osquery.FileEvents.Monitoring
