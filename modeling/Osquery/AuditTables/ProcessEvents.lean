import Osquery.EventPublishers.AuditEvents

/-!
# The table of started processes

The subscriber turns each completed event of an `execve` call into a row: the identity
fields are copied from the record of the call, the times are those that the `file` table has
for the executable, and the command line is put together from the fields of the `EXECVE`
record, in the order in which a map of texts has them.

## Implementation notes

No list of rows stands for an exception, which ends the process because the subscriber is
`noexcept`. The rows of the `file` table and the text of the uptime are inputs. The numbers
of the calls are those of x86-64.
-/

namespace Osquery.AuditTables

open EventPublishers Foundation.Numeral Core.Rows

def AUDIT_PATH : ℤ := 1302
def AUDIT_CWD : ℤ := 1307
def AUDIT_EXECVE : ℤ := 1309

def NR_execve : UInt64 := 59

def getEventRecord (event : AuditEvent) (record_type : ℤ) : Option AuditEventRecord :=
  event.record_list.find? fun record => record.type = record_type

def copyFieldFromMap (row : Row) (fields : Std.ExtTreeMap String String)
    (name default_value : String) : Row :=
  row.insert name (getStringFieldFromMap fields name default_value).1

/-- The data of an event, read as those of a system call. -/
def getSyscallData (event : AuditEvent) : Option SyscallAuditEventData :=
  match event.data with
  | .syscall data => some data
  | .user _ => none

section Subscriber

variable (unhex : String → Option String) (file : String → QueryData) (uptime : String)

/-- One more field of the `EXECVE` record. -/
def amalgamate (cmdline : String) (arg : String × String) : String :=
  if arg.1 = "argc" then cmdline
  else
    (if cmdline ≠ "" then cmdline ++ " " else cmdline) ++ decodeAuditPathValues unhex arg.2

def commandLine (fields : Std.ExtTreeMap String String) : String :=
  fields.toList.foldl (amalgamate unhex) ""

/-- The times of the only file with the path of the row. -/
def addTimes (row : Row) (path : String) : Option Row :=
  match file path with
  | [found] => do
      let ctime ← found["ctime"]?
      let atime ← found["atime"]?
      let mtime ← found["mtime"]?
      return (((row.insert "ctime" ctime).insert "atime" atime).insert "mtime" mtime).insert
        "btime" "0"
  | _ => some row

/-- The columns about the call and its process. -/
def callColumns (syscall cwd : AuditEventRecord) : Row :=
  let row := copyFieldFromMap ∅ syscall.fields "auid" "0"
  let row := copyFieldFromMap row syscall.fields "pid" "0"
  let row := copyFieldFromMap row syscall.fields "uid" "0"
  let row := copyFieldFromMap row syscall.fields "euid" "0"
  let row := copyFieldFromMap row syscall.fields "gid" "0"
  let row := copyFieldFromMap row syscall.fields "egid" "0"
  let row := copyFieldFromMap row cwd.fields "cwd" "0"
  let parent_process_id := (getIntegerFieldFromMap syscall.fields "ppid").getD (0 - 1)
  row.insert "parent" (toText parent_process_id.toNat)

/-- The columns about the arguments and the first path. -/
def argumentColumns (row : Row) (execve first_path : AuditEventRecord) : Row :=
  let row := row.insert "overflows" ""
  let row := row.insert "env_size" "0"
  let row := row.insert "env_count" "0"
  let row := row.insert "env" ""
  let row := row.insert "uptime" uptime
  let cmdline := commandLine unhex execve.fields
  let row := row.insert "cmdline" cmdline
  let row := row.insert "cmdline_size" (toText cmdline.length)
  let row := copyFieldFromMap row first_path.fields "mode" ""
  let row := row.insert "owner_uid" (getStringFieldFromMap first_path.fields "ouid" "0").1
  row.insert "owner_gid" (getStringFieldFromMap first_path.fields "ogid" "0").1

def execveRow (syscall execve first_path cwd : AuditEventRecord) : Option Row := do
  let path := decodeAuditPathValues unhex (getStringFieldFromMap syscall.fields "exe" "").1
  let row ← addTimes file ((callColumns syscall cwd).insert "path" path) path
  return argumentColumns unhex uptime row execve first_path

/-- The rows of one event: none when it is passed over. -/
def processEvent (event : AuditEvent) : Option (List Row) :=
  if event.type ≠ .syscall then some []
  else do
    let event_data ← getSyscallData event
    if event_data.syscall_number ≠ NR_execve then return []
    else
      match getEventRecord event AUDIT_SYSCALL, getEventRecord event AUDIT_EXECVE,
        getEventRecord event AUDIT_PATH, getEventRecord event AUDIT_CWD with
      | some syscall, some execve, some first_path, some cwd =>
          return [← execveRow unhex file uptime syscall execve first_path cwd]
      | _, _, _, _ => return []

/-- The rows of some events, if all of them are handled. -/
def processEventList (event_list : List AuditEvent) : Option (List Row) :=
  (event_list.mapM (processEvent unhex file uptime)).map List.flatten

end Subscriber

/-- Every row of the `file` table has the times of the file. -/
def HasTimes (file : String → QueryData) : Prop :=
  ∀ path, ∀ row ∈ file path, "ctime" ∈ row ∧ "atime" ∈ row ∧ "mtime" ∈ row

theorem noFiles_hasTimes : HasTimes fun _ => [] := by
  intro path row hrow
  cases hrow

theorem addTimes_isSome {file : String → QueryData} (h : HasTimes file) (row : Row)
    (path : String) : (addTimes file row path).isSome := by
  rw [addTimes]
  split
  · next found hfile =>
      obtain ⟨hctime, hatime, hmtime⟩ := h path found (by rw [hfile]; exact List.mem_cons_self)
      simp only [Std.ExtTreeMap.getElem?_eq_some_getElem hctime,
        Std.ExtTreeMap.getElem?_eq_some_getElem hatime,
        Std.ExtTreeMap.getElem?_eq_some_getElem hmtime]
      rfl
  · rfl

theorem getElem?_insert_of_ne {row : Row} {column name value : String} (h : column ≠ name) :
    (row.insert column value)[name]? = row[name]? := by
  rw [Std.ExtTreeMap.getElem?_insert, if_neg]
  exact fun heq => h (Std.LawfulEqCmp.eq_of_compare heq)

/-- The row of a started process has the command line of the fields. -/
theorem execveRow_cmdline (unhex : String → Option String) {file : String → QueryData}
    (hfile : HasTimes file) (uptime : String)
    (syscall execve first_path cwd : AuditEventRecord) :
    ∃ row, execveRow unhex file uptime syscall execve first_path cwd = some row ∧
      row["cmdline"]? = some (commandLine unhex execve.fields) := by
  let path := decodeAuditPathValues unhex (getStringFieldFromMap syscall.fields "exe" "").1
  obtain ⟨row, hrow⟩ := Option.isSome_iff_exists.mp
    (addTimes_isSome hfile ((callColumns syscall cwd).insert "path" path) path)
  use argumentColumns unhex uptime row execve first_path
  constructor
  · simp [execveRow, path, hrow]
  · simp only [argumentColumns, copyFieldFromMap]
    rw [getElem?_insert_of_ne (by decide), getElem?_insert_of_ne (by decide),
      getElem?_insert_of_ne (by decide), getElem?_insert_of_ne (by decide),
      Std.ExtTreeMap.getElem?_insert_self]

/-- An event of a started process that has a record of each kind. -/
structure ExecveEvent (execve : AuditEventRecord) (event : AuditEvent) : Prop where
  type : event.type = .syscall
  data : ∃ data, event.data = .syscall data ∧ data.syscall_number = NR_execve
  execve : getEventRecord event AUDIT_EXECVE = some execve
  syscall : (getEventRecord event AUDIT_SYSCALL).isSome
  path : (getEventRecord event AUDIT_PATH).isSome
  cwd : (getEventRecord event AUDIT_CWD).isSome

theorem processEventList_execve (unhex : String → Option String) {file : String → QueryData}
    (hfile : HasTimes file) (uptime : String) {execve : AuditEventRecord} {event : AuditEvent}
    (h : ExecveEvent execve event) :
    ∃ row, processEventList unhex file uptime [event] = some [row] ∧
      row["cmdline"]? = some (commandLine unhex execve.fields) := by
  obtain ⟨data, hdata, hnumber⟩ := h.data
  obtain ⟨syscall, hsyscall⟩ := Option.isSome_iff_exists.mp h.syscall
  obtain ⟨first_path, hpath⟩ := Option.isSome_iff_exists.mp h.path
  obtain ⟨cwd, hcwd⟩ := Option.isSome_iff_exists.mp h.cwd
  obtain ⟨row, hrow, hcmdline⟩ :=
    execveRow_cmdline unhex hfile uptime syscall execve first_path cwd
  use row
  constructor
  · have hevent : processEvent unhex file uptime event = some [row] := by
      rw [processEvent, if_neg (not_not.mpr h.type), getSyscallData, hdata]
      simp only [Option.bind_eq_bind, Option.bind_some]
      rw [if_neg (not_not.mpr hnumber), hsyscall, h.execve, hpath, hcwd]
      simp [hrow]
    simp [processEventList, hevent]
  · exact hcmdline

end Osquery.AuditTables
