import Osquery.EventPublishers.AuditAssembly

/-!
# What events say of their system calls

Every event of a system call that is emitted begins with the record of the call that
opened it, and all its records have the id of that one. The number of the call, the two
processes and the executable of that record reach the data of the event; the users and
groups never do, because they are assigned to the data after it was copied.
-/

namespace Osquery.EventPublishers

open Foundation.Numeral

section Provenance

variable (unhex : String → Option String) (executable_path : String)

/-- An event that a record of a call opened. -/
def Opened (audit_id : String) (event : AuditEvent) : Prop :=
  ∃ (record : AuditEventRecord) (data : SyscallAuditEventData) (attached : List AuditEventRecord),
    event = ⟨.syscall, .syscall data, record :: attached⟩ ∧ record.type = AUDIT_SYSCALL ∧
      syscallData unhex executable_path record = some data ∧
      ∀ r ∈ record :: attached, r.audit_id = audit_id

/-- The three kinds of events. -/
inductive Formed : AuditEvent → Prop
  | user (number : UInt64) (record : AuditEventRecord) :
      Formed ⟨.userEvent, .user number, [record]⟩
  | selinux (record : AuditEventRecord) : Formed ⟨.selinux, .user 0, [record]⟩
  | syscall {audit_id : String} {event : AuditEvent} :
      Opened unhex executable_path audit_id event → Formed event

/-- Unfinished events are opened, and finished ones are of one of the three kinds. -/
structure Provenance (s : Assembly) : Prop where
  emitted : ∀ event ∈ s.audit_events, Formed unhex executable_path event
  unfinished : ∀ audit_id event, s.trace_context[audit_id]? = some event →
    Opened unhex executable_path audit_id event

/-- Every unfinished event of the first map is one of the second. -/
def Remains (smaller larger : AuditTraceContext) : Prop :=
  ∀ (audit_id : String) (event : AuditEvent),
    smaller[audit_id]? = some event → larger[audit_id]? = some event

theorem Remains.refl (trace_context : AuditTraceContext) : Remains trace_context trace_context :=
  fun _ _ he => he

theorem Remains.erase (trace_context : AuditTraceContext) (erased : String) :
    Remains (trace_context.erase erased) trace_context := by
  intro audit_id event h
  rw [Std.ExtTreeMap.getElem?_erase] at h
  split at h
  · cases h
  · exact h

theorem Remains.dropOld (current_time : ℤ) (trace_context : AuditTraceContext) :
    Remains (EventPublishers.dropOld current_time trace_context) trace_context := by
  intro audit_id event h
  rw [EventPublishers.dropOld, Std.ExtTreeMap.getElem?_filter, Option.pfilter_eq_some_iff] at h
  exact h.1

variable {unhex executable_path}

theorem Opened.append {audit_id : String} {event : AuditEvent} {record : AuditEventRecord}
    (h : Opened unhex executable_path audit_id event) (hid : record.audit_id = audit_id) :
    Opened unhex executable_path audit_id
      { event with record_list := event.record_list ++ [record] } := by
  obtain ⟨first, data, attached, rfl, htype, hdata, hids⟩ := h
  refine ⟨first, data, attached ++ [record], rfl, htype, hdata, ?_⟩
  intro r hr
  rw [← List.cons_append, List.mem_append, List.mem_singleton] at hr
  obtain hold | rfl := hr
  · exact hids r hold
  · exact hid

theorem Provenance.emit {s : Assembly} {event : AuditEvent} {trace_context : AuditTraceContext}
    (h : Provenance unhex executable_path s) (hevent : Formed unhex executable_path event)
    (htrace : Remains trace_context s.trace_context) :
    Provenance unhex executable_path ⟨s.audit_events ++ [event], trace_context⟩ := by
  constructor
  · intro e he
    rw [List.mem_append, List.mem_singleton] at he
    obtain hold | rfl := he
    · exact h.emitted e hold
    · exact hevent
  · intro audit_id e he
    exact h.unfinished audit_id e (htrace audit_id e he)

theorem Provenance.insert {s : Assembly} {event : AuditEvent} {audit_id : String}
    {trace_context : AuditTraceContext} (h : Provenance unhex executable_path s)
    (htrace : Remains trace_context s.trace_context)
    (hevent : Opened unhex executable_path audit_id event) :
    Provenance unhex executable_path
      { s with trace_context := trace_context.insert audit_id event } := by
  constructor
  · exact h.emitted
  · intro id e he
    rw [Std.ExtTreeMap.getElem?_insert] at he
    split at he
    · next heq =>
        obtain rfl := Option.some.inj he
        rw [← Std.LawfulEqCmp.eq_of_compare heq]
        exact hevent
    · exact h.unfinished id e (htrace id e he)

/-- Every record keeps the provenance of the events. -/
theorem Provenance.processRecord {s : Assembly} (h : Provenance unhex executable_path s)
    (record : AuditEventRecord) :
    Provenance unhex executable_path
      (EventPublishers.processRecord unhex executable_path s record) := by
  rw [EventPublishers.processRecord]
  split
  · exact h.emit (.user _ record) (Remains.refl _)
  · split
    · exact h.emit (.selinux record) (Remains.refl _)
    · split
      · next htype =>
          cases hdata : syscallData unhex executable_path record with
          | none => exact ⟨h.emitted, fun id e he => h.unfinished id e (Remains.erase _ _ id e he)⟩
          | some data =>
              refine h.insert (Remains.erase _ _) ⟨record, data, [], rfl, htype,
                hdata, ?_⟩
              intro r hr
              rw [List.mem_singleton.mp hr]
      · split
        · cases hevent : s.trace_context[record.audit_id]? with
          | none => exact h
          | some event =>
              exact h.emit (.syscall (h.unfinished _ event hevent))
                (Remains.erase _ _)
        · cases hevent : s.trace_context[record.audit_id]? with
          | none => exact h
          | some event =>
              exact h.insert (Remains.refl _) ((h.unfinished _ event hevent).append rfl)

theorem Provenance.foldl {s : Assembly} (h : Provenance unhex executable_path s)
    (records : List AuditEventRecord) :
    Provenance unhex executable_path
      (records.foldl (EventPublishers.processRecord unhex executable_path) s) := by
  induction records generalizing s with
  | nil => exact h
  | cons record records ih => exact ih (h.processRecord record)

/-- In every run of the publisher all events are of one of the three kinds. -/
theorem formed_of_emitted (batches : List (ℤ × List AuditEventRecord))
    {trace_context : AuditTraceContext}
    (htrace : ∀ audit_id event, trace_context[audit_id]? = some event →
      Opened unhex executable_path audit_id event) :
    ∀ event ∈ (processBatches unhex executable_path batches trace_context).1,
      Formed unhex executable_path event := by
  induction batches generalizing trace_context with
  | nil =>
      intro event hevent
      cases hevent
  | cons batch batches ih =>
      obtain ⟨current_time, records⟩ := batch
      have hstart : Provenance unhex executable_path ⟨[], trace_context⟩ :=
        ⟨by simp, htrace⟩
      have hbatch := hstart.foldl records
      intro event hevent
      rw [processBatches, List.mem_append] at hevent
      obtain hnow | hlater := hevent
      · exact hbatch.emitted event hnow
      · exact ih (fun id e he => hbatch.unfinished id e (Remains.dropOld _ _ id e he)) event hlater

end Provenance

/-! ### The identity of a call -/

/-- The call, the processes and the executable that a record names. -/
structure CarriesCall (unhex : String → Option String) (record : AuditEventRecord)
    (data : SyscallAuditEventData) : Prop where
  syscall : getIntegerFieldFromMap record.fields "syscall" = some data.syscall_number
  pid : (getIntegerFieldFromMap record.fields "pid").map (·.toUInt32.toInt32) =
    some data.process_id
  ppid : (getIntegerFieldFromMap record.fields "ppid").map (·.toUInt32.toInt32) =
    some data.parent_process_id
  exe : record.fields["exe"]?.map (decodeAuditPathValues unhex) = some data.executable_path

/-- The users and groups that a record names. -/
structure CarriesUsers (record : AuditEventRecord) (data : SyscallAuditEventData) : Prop where
  named : (getIntegerFieldFromMap record.fields "uid").isSome
  uid : (getIntegerFieldFromMap record.fields "uid").map UInt64.toUInt32 = data.process_uid
  euid : (getIntegerFieldFromMap record.fields "euid").map UInt64.toUInt32 = data.process_euid
  gid : (getIntegerFieldFromMap record.fields "gid").map UInt64.toUInt32 = data.process_gid
  egid : (getIntegerFieldFromMap record.fields "egid").map UInt64.toUInt32 = data.process_egid

/-- The data of an event is what the record of the call that opened it says. -/
def CarriesIdentity (unhex : String → Option String) (event : AuditEvent) : Prop :=
  ∃ record data, event.record_list.head? = some record ∧ record.type = AUDIT_SYSCALL ∧
    event.data = .syscall data ∧ CarriesCall unhex record data ∧ CarriesUsers record data

section Identity

variable {unhex : String → Option String} {executable_path : String}

/-- The data of an accepted record names the call, and no user and no group. -/
theorem carriesCall_of_syscallData {record : AuditEventRecord} {data : SyscallAuditEventData}
    (h : syscallData unhex executable_path record = some data) :
    CarriesCall unhex record data ∧ data.process_uid = none ∧
      (getIntegerFieldFromMap record.fields "uid").isSome := by
  simp only [syscallData, Option.bind_eq_bind, Option.bind_eq_some_iff] at h
  obtain ⟨raw, hraw, h⟩ := h
  split at h
  · cases h
  · obtain ⟨number, hnumber, h⟩ := Option.bind_eq_some_iff.mp h
    split at h
    · cases h
    · simp only [Option.bind_eq_some_iff] at h
      obtain ⟨pid, hpid, ppid, hppid, uid, huid, euid, heuid, gid, hgid, egid, hegid, hdata⟩ := h
      obtain rfl := Option.some.inj hdata
      refine ⟨⟨hnumber, ?_, ?_, ?_⟩, rfl, ?_⟩
      · rw [hpid]
        rfl
      · rw [hppid]
        rfl
      · rw [hraw]
        rfl
      · rw [huid]
        rfl

/-- Every event of a system call that is emitted names the call, the processes and the
executable of the record that opened it, and not its users and groups. -/
theorem syscall_users_lost (batches : List (ℤ × List AuditEventRecord)) {event : AuditEvent}
    (hevent : event ∈ (processBatches unhex executable_path batches ∅).1)
    (htype : event.type = .syscall) :
    (∃ record data, event.record_list.head? = some record ∧ record.type = AUDIT_SYSCALL ∧
        (∀ r ∈ event.record_list, r.audit_id = record.audit_id) ∧
        event.data = .syscall data ∧ CarriesCall unhex record data) ∧
      ¬CarriesIdentity unhex event := by
  have hformed := @formed_of_emitted _ _ batches ∅ (by simp) event hevent
  cases hformed with
  | user => cases htype
  | selinux => cases htype
  | syscall hopened =>
      obtain ⟨record, data, attached, rfl, hrecord, hdata, hids⟩ := hopened
      obtain ⟨hcall, huid, hnamed⟩ := carriesCall_of_syscallData hdata
      constructor
      · refine ⟨record, data, rfl, hrecord, ?_, rfl, hcall⟩
        intro r hr
        rw [hids r hr, hids record List.mem_cons_self]
      · rintro ⟨first, carried, hfirst, _, hcarried, _, husers⟩
        obtain rfl := Option.some.inj hfirst
        obtain rfl := AuditEventData.syscall.inj hcarried
        have hnone := husers.uid
        rw [huid, Option.map_eq_none_iff] at hnone
        rw [hnone] at hnamed
        cases hnamed

end Identity

/-! ### One call -/

theorem sampleCall_emitted :
    (sampleCall "1501323932.710:1").assembled ∈
      (processBatches noHex "/usr/bin/osqueryd"
        [(1501323933, (sampleCall "1501323932.710:1").records)] ∅).1 := by
  decide

theorem syscall_users_lost_sample :
    (∃ record data,
        (sampleCall "1501323932.710:1").assembled.record_list.head? = some record ∧
          record.type = AUDIT_SYSCALL ∧
          (∀ r ∈ (sampleCall "1501323932.710:1").assembled.record_list,
            r.audit_id = record.audit_id) ∧
          (sampleCall "1501323932.710:1").assembled.data = .syscall data ∧
          CarriesCall noHex record data) ∧
      ¬CarriesIdentity noHex (sampleCall "1501323932.710:1").assembled :=
  syscall_users_lost [(1501323933, (sampleCall "1501323932.710:1").records)]
    sampleCall_emitted rfl

/-- A process of the user 0 whose event does not say so. -/
theorem user_not_carried :
    ¬∀ (batches : List (ℤ × List AuditEventRecord)) (event : AuditEvent),
      event ∈ (processBatches noHex "/usr/bin/osqueryd" batches ∅).1 → event.type = .syscall →
        CarriesIdentity noHex event := by
  intro hall
  obtain ⟨record, data, hfirst, _, hdata, _, husers⟩ := hall _ _ sampleCall_emitted rfl
  obtain rfl := Option.some.inj hfirst
  obtain rfl := AuditEventData.syscall.inj hdata
  have huid := husers.uid
  revert huid
  decide

end Osquery.EventPublishers
