import Osquery.Core.Rows
import Osquery.Foundation.Grouping

/-!
# Audit records assembled into events

The records of a system call arrive one by one and mixed with those of other calls. A
map from audit ids to unfinished events collects them: the record of the call starts an
event, the terminator completes it, and everything between is attached by its id. After
every batch the events that are too old are dropped. However the records are mixed and
cut into batches, an event is completed with its own records, in their order, up to the
terminator, which is not kept.

## Implementation notes

The clock, the path of the executable and the decoding of hexadecimal text are inputs.
Fields that are never assigned have no value. Texts are cut by characters.
-/

namespace Osquery.EventPublishers

open Foundation.Numeral Foundation.Grouping

def AUDIT_FIRST_USER_MSG : ℤ := 1100
def AUDIT_LAST_USER_MSG : ℤ := 1199
def AUDIT_SYSCALL : ℤ := 1300
def AUDIT_EOE : ℤ := 1320

/-- The types of SELinux records: `AUDIT_USER_AVC`, and from `AUDIT_AVC` to
`AUDIT_MAC_UNLBL_STCDEL`. -/
def kSELinuxEventList : List ℤ :=
  [1107, 1400, 1401, 1402, 1403, 1404, 1405, 1406, 1407, 1408, 1409, 1410, 1411, 1412, 1413, 1414,
    1415, 1416, 1417]

structure AuditEventRecord where
  type : ℤ
  time : UInt64
  audit_id : String
  fields : Std.ExtTreeMap String String
  raw_data : String
  deriving DecidableEq

/-- The users and groups are assigned after the data was copied into the event. -/
structure SyscallAuditEventData where
  syscall_number : UInt64
  process_id : Int32
  parent_process_id : Int32
  process_uid : Option UInt32 := none
  process_euid : Option UInt32 := none
  process_gid : Option UInt32 := none
  process_egid : Option UInt32 := none
  executable_path : String
  deriving DecidableEq

inductive AuditEventData
  | user (user_event_id : UInt64)
  | syscall (data : SyscallAuditEventData)
  deriving DecidableEq

inductive AuditEventType
  | userEvent
  | syscall
  | selinux
  deriving DecidableEq

structure AuditEvent where
  type : AuditEventType
  data : AuditEventData
  record_list : List AuditEventRecord
  deriving DecidableEq

abbrev AuditTraceContext := Std.ExtTreeMap String AuditEvent

/-! ### Fields -/

def getStringFieldFromMap (fields : Std.ExtTreeMap String String) (name default_value : String) :
    String × Bool :=
  match fields[name]? with
  | none => (default_value, false)
  | some value => (value, true)

/-- The value of a field that is an integer. -/
def getIntegerFieldFromMap (field_map : Std.ExtTreeMap String String) (field_name : String) :
    Option UInt64 :=
  let (string_value, found) := getStringFieldFromMap field_map field_name ""
  if found then (stoull string_value).toOption else none

section Assembly

variable (unhex : String → Option String) (executable_path : String)

/-- A path is quoted, or hexadecimal, or neither. -/
def decodeAuditPathValues (s : String) : String :=
  match s.toList with
  | '"' :: c :: rest => String.ofList (c :: rest).dropLast
  | _ => (unhex s).getD s

/-- The data of a system call whose record has what is required. -/
def syscallData (record : AuditEventRecord) : Option SyscallAuditEventData := do
  let raw_executable_path ← record.fields["exe"]?
  let executable := decodeAuditPathValues unhex raw_executable_path
  if executable_path = executable then none
  else
    let syscall_number ← getIntegerFieldFromMap record.fields "syscall"
    if (getStringFieldFromMap record.fields "success" "yes").1 ≠ "yes" then none
    else
      let process_id ← getIntegerFieldFromMap record.fields "pid"
      let parent_process_id ← getIntegerFieldFromMap record.fields "ppid"
      let _ ← getIntegerFieldFromMap record.fields "uid"
      let _ ← getIntegerFieldFromMap record.fields "euid"
      let _ ← getIntegerFieldFromMap record.fields "gid"
      let _ ← getIntegerFieldFromMap record.fields "egid"
      return {
        syscall_number
        process_id := process_id.toUInt32.toInt32
        parent_process_id := parent_process_id.toUInt32.toInt32
        executable_path := executable }

/-! ### Processing -/

/-- The events that are complete, and those that are not. -/
structure Assembly where
  audit_events : List AuditEvent
  trace_context : AuditTraceContext

def processRecord (s : Assembly) (record : AuditEventRecord) : Assembly :=
  if AUDIT_FIRST_USER_MSG ≤ record.type ∧ record.type ≤ AUDIT_LAST_USER_MSG then
    { s with
      audit_events := s.audit_events ++ [⟨.userEvent, .user (UInt64.ofInt record.type), [record]⟩] }
  else if record.type ∈ kSELinuxEventList then
    { s with audit_events := s.audit_events ++ [⟨.selinux, .user 0, [record]⟩] }
  else if record.type = AUDIT_SYSCALL then
    let trace_context := s.trace_context.erase record.audit_id
    match syscallData unhex executable_path record with
    | none => { s with trace_context }
    | some data =>
        { s with
          trace_context := trace_context.insert record.audit_id
            ⟨.syscall, .syscall data, [record]⟩ }
  else if record.type = AUDIT_EOE then
    match s.trace_context[record.audit_id]? with
    | none => s
    | some event => ⟨s.audit_events ++ [event], s.trace_context.erase record.audit_id⟩
  else
    match s.trace_context[record.audit_id]? with
    | none => s
    | some event =>
        { s with
          trace_context := s.trace_context.insert record.audit_id
            { event with record_list := event.record_list ++ [record] } }

/-- The first part of an audit id is its time. -/
def eventTimestamp (audit_event_id : String) : ℤ :=
  match stoll (String.ofList (audit_event_id.toList.take 10)) with
  | .ok n => n
  | .error _ => 0

/-- Unfinished events are dropped after five minutes. -/
def dropOld (current_time : ℤ) (trace_context : AuditTraceContext) : AuditTraceContext :=
  trace_context.filter fun audit_event_id _ => current_time - eventTimestamp audit_event_id < 300

def processEvents (current_time : ℤ) (record_list : List AuditEventRecord)
    (trace_context : AuditTraceContext) : List AuditEvent × AuditTraceContext :=
  let s := record_list.foldl (processRecord unhex executable_path) ⟨[], trace_context⟩
  (s.audit_events, dropOld current_time s.trace_context)

/-- Batches with the times at which they end, and the events that they emit. -/
def processBatches : List (ℤ × List AuditEventRecord) → AuditTraceContext →
    List AuditEvent × AuditTraceContext
  | [], trace_context => ([], trace_context)
  | (current_time, record_list) :: batches, trace_context =>
      let (audit_events, trace_context) :=
        processEvents unhex executable_path current_time record_list trace_context
      let (later, trace_context) := processBatches batches trace_context
      (audit_events ++ later, trace_context)

end Assembly

/-! ### The records of a system call -/

/-- The types of the records that are attached to a call. -/
def IsAttached (type : ℤ) : Prop :=
  ¬(AUDIT_FIRST_USER_MSG ≤ type ∧ type ≤ AUDIT_LAST_USER_MSG) ∧ type ∉ kSELinuxEventList ∧
    type ≠ AUDIT_SYSCALL ∧ type ≠ AUDIT_EOE

/-- A record of a call that succeeded, with all required fields, by another executable. -/
structure Accepted (unhex : String → Option String) (executable_path : String)
    (record : AuditEventRecord) : Prop where
  exe : ∃ raw, record.fields["exe"]? = some raw ∧
    executable_path ≠ decodeAuditPathValues unhex raw
  success : ∀ status, record.fields["success"]? = some status → status = "yes"
  integers : ∀ name ∈ ["syscall", "pid", "ppid", "uid", "euid", "gid", "egid"],
    (getIntegerFieldFromMap record.fields name).isSome

theorem success_eq_yes_iff (fields : Std.ExtTreeMap String String) :
    (getStringFieldFromMap fields "success" "yes").1 = "yes" ↔
      ∀ status, fields["success"]? = some status → status = "yes" := by
  rw [getStringFieldFromMap]
  cases fields["success"]? with
  | none => simp
  | some status => simp

/-- The accepted records are those that start an event. -/
theorem syscallData_isSome_iff (unhex : String → Option String) (executable_path : String)
    (record : AuditEventRecord) :
    (syscallData unhex executable_path record).isSome ↔
      Accepted unhex executable_path record := by
  constructor
  · intro h
    obtain ⟨data, hdata⟩ := Option.isSome_iff_exists.mp h
    simp only [syscallData, Option.bind_eq_bind, Option.bind_eq_some_iff] at hdata
    obtain ⟨raw, hraw, hdata⟩ := hdata
    split at hdata
    · cases hdata
    · next hexe =>
        obtain ⟨number, hnumber, hdata⟩ := Option.bind_eq_some_iff.mp hdata
        split at hdata
        · cases hdata
        · next hsuccess =>
            simp only [Option.bind_eq_some_iff] at hdata
            obtain ⟨pid, hpid, ppid, hppid, uid, huid, euid, heuid, gid, hgid, egid, hegid, _⟩ :=
              hdata
            constructor
            · exact ⟨raw, hraw, hexe⟩
            · exact (success_eq_yes_iff record.fields).mp (not_not.mp hsuccess)
            · simp [hnumber, hpid, hppid, huid, heuid, hgid, hegid]
  · rintro ⟨⟨raw, hraw, hexe⟩, hsuccess, hintegers⟩
    have hyes := (success_eq_yes_iff record.fields).mpr hsuccess
    simp only [List.forall_mem_cons, Option.isSome_iff_exists] at hintegers
    obtain ⟨⟨number, hnumber⟩, ⟨pid, hpid⟩, ⟨ppid, hppid⟩, ⟨uid, huid⟩, ⟨euid, heuid⟩, ⟨gid, hgid⟩,
      ⟨egid, hegid⟩, _⟩ := hintegers
    simp [syscallData, hraw, hexe, hyes, hnumber, hpid, hppid, huid, heuid, hgid, hegid]

end Osquery.EventPublishers
