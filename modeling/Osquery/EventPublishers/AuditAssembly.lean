import Osquery.EventPublishers.AuditEvents

/-!
# Audit events in any interleaving

The records of some system calls are merged into one stream, which is cut into batches.
After any part of the stream the map holds, for every call, exactly the records of the
call in that part, unless there are none or all of them are there; the emitted events
are those whose terminators are in that part, in the order of the terminators.

## Implementation notes

The calls are indexed, so that two calls may have the same records apart from the id.
The map may hold unfinished events of other calls at first.
-/

namespace Osquery.EventPublishers

open Foundation.Grouping

variable (unhex : String → Option String) (executable_path : String)

/-- The records of a system call. -/
structure AuditedCall where
  audit_id : String
  syscall : AuditEventRecord
  attached : List AuditEventRecord
  eoe : AuditEventRecord
  ids : ∀ record ∈ syscall :: (attached ++ [eoe]), record.audit_id = audit_id
  accepted : Accepted unhex executable_path syscall
  syscall_type : syscall.type = AUDIT_SYSCALL
  attached_type : ∀ record ∈ attached, IsAttached record.type
  eoe_type : eoe.type = AUDIT_EOE

variable {unhex executable_path}

namespace AuditedCall

variable (call : AuditedCall unhex executable_path)

def records : List AuditEventRecord := call.syscall :: (call.attached ++ [call.eoe])

def data : SyscallAuditEventData :=
  (syscallData unhex executable_path call.syscall).get
    ((syscallData_isSome_iff unhex executable_path call.syscall).mpr call.accepted)

/-- The event that is emitted for a call. -/
def assembled : AuditEvent :=
  ⟨.syscall, .syscall call.data, call.syscall :: call.attached⟩

/-- The event of a call of which some records have arrived. -/
def unfinished (arrived : List AuditEventRecord) : Option AuditEvent :=
  if arrived = [] ∨ arrived = call.records then none
  else some ⟨.syscall, .syscall call.data, arrived⟩

theorem syscallData_eq : syscallData unhex executable_path call.syscall = some call.data :=
  (Option.some_get _).symm

theorem unfinished_of_length {arrived : List AuditEventRecord} (hne : arrived ≠ [])
    (hlt : arrived.length < call.records.length) :
    call.unfinished arrived = some ⟨.syscall, .syscall call.data, arrived⟩ := by
  rw [unfinished, if_neg]
  rintro (rfl | rfl)
  · exact hne rfl
  · exact lt_irrefl _ hlt

/-- Where a record stands among the records of a call. -/
theorem position {arrived rest : List AuditEventRecord} {record : AuditEventRecord}
    (h : arrived ++ record :: rest = call.records) :
    (arrived = [] ∧ record = call.syscall) ∨
      (∃ a b, arrived = call.syscall :: a ∧ call.attached = a ++ record :: b) ∨
        (arrived = call.syscall :: call.attached ∧ record = call.eoe) := by
  cases arrived with
  | nil =>
      left
      exact ⟨rfl, (List.cons.inj h).1⟩
  | cons first a =>
      right
      obtain ⟨hfirst, htail⟩ := List.cons.inj h
      subst hfirst
      cases rest using List.reverseRecOn with
      | nil =>
          right
          obtain ⟨ha, hrecord⟩ := List.append_inj' htail rfl
          exact ⟨by rw [ha], List.singleton_inj.mp hrecord⟩
      | append_singleton b last =>
          left
          have hsplit : (a ++ record :: b) ++ [last] = call.attached ++ [call.eoe] := by
            simpa using htail
          exact ⟨a, b, rfl, (List.append_inj' hsplit rfl).1.symm⟩

end AuditedCall

/-! ### One record -/

theorem processRecord_syscall {s : Assembly} {record : AuditEventRecord}
    {data : SyscallAuditEventData} (htype : record.type = AUDIT_SYSCALL)
    (hdata : syscallData unhex executable_path record = some data) :
    processRecord unhex executable_path s record =
      { s with
        trace_context := (s.trace_context.erase record.audit_id).insert record.audit_id
          ⟨.syscall, .syscall data, [record]⟩ } := by
  rw [processRecord, htype, if_neg (by decide), if_neg (by decide), if_pos rfl, hdata]

theorem processRecord_attached {s : Assembly} {record : AuditEventRecord} {event : AuditEvent}
    (htype : IsAttached record.type) (hevent : s.trace_context[record.audit_id]? = some event) :
    processRecord unhex executable_path s record =
      { s with
        trace_context := s.trace_context.insert record.audit_id
          { event with record_list := event.record_list ++ [record] } } := by
  obtain ⟨huser, hselinux, hsyscall, heoe⟩ := htype
  rw [processRecord, if_neg huser, if_neg hselinux, if_neg hsyscall, if_neg heoe, hevent]

theorem processRecord_eoe {s : Assembly} {record : AuditEventRecord} {event : AuditEvent}
    (htype : record.type = AUDIT_EOE) (hevent : s.trace_context[record.audit_id]? = some event) :
    processRecord unhex executable_path s record =
      ⟨s.audit_events ++ [event], s.trace_context.erase record.audit_id⟩ := by
  rw [processRecord, htype, if_neg (by decide), if_neg (by decide), if_neg (by decide),
    if_pos rfl, hevent]

/-- Records are told apart by their ids. -/
theorem processRecord_other {s : Assembly} {record : AuditEventRecord} {id : String}
    (h : record.audit_id ≠ id) :
    (processRecord unhex executable_path s record).trace_context[id]? = s.trace_context[id]? := by
  rw [processRecord]
  split
  · rfl
  · split
    · rfl
    · split
      · cases syscallData unhex executable_path record with
        | none => simp [Std.ExtTreeMap.getElem?_erase, h]
        | some data => simp [Std.ExtTreeMap.getElem?_insert, Std.ExtTreeMap.getElem?_erase, h]
      · split
        · cases s.trace_context[record.audit_id]? with
          | none => rfl
          | some event => simp [Std.ExtTreeMap.getElem?_erase, h]
        · cases s.trace_context[record.audit_id]? with
          | none => rfl
          | some event => simp [Std.ExtTreeMap.getElem?_insert, h]

/-! ### A part of the stream -/

variable {ι : Type} (calls : ι → AuditedCall unhex executable_path)

/-- What a part of the stream leaves unfinished, and what it completes. -/
structure Assembled (arrived : List AuditEventRecord) (s : Assembly) : Prop where
  unfinished : ∀ i, s.trace_context[(calls i).audit_id]? =
    (calls i).unfinished (group AuditEventRecord.audit_id arrived (calls i).audit_id)
  emitted : ∃ order : List ι,
    (arrived.filter fun record => record.type = AUDIT_EOE) = order.map (fun i => (calls i).eoe) ∧
      s.audit_events = order.map fun i => (calls i).assembled

variable {calls}

theorem Assembled.start {trace_context : AuditTraceContext}
    (h : ∀ i, trace_context[(calls i).audit_id]? = none) :
    Assembled calls [] ⟨[], trace_context⟩ := by
  constructor
  · intro i
    rw [h i]
    rfl
  · exact ⟨[], rfl, rfl⟩

/-- The other calls do not notice a record. -/
theorem Assembled.unfinished_other {arrived : List AuditEventRecord} {s : Assembly}
    (h : Assembled calls arrived s) {record : AuditEventRecord} {j : ι}
    (hne : record.audit_id ≠ (calls j).audit_id) :
    (processRecord unhex executable_path s record).trace_context[(calls j).audit_id]? =
      (calls j).unfinished
        (group AuditEventRecord.audit_id (arrived ++ [record]) (calls j).audit_id) := by
  have hgroup : group AuditEventRecord.audit_id (arrived ++ [record]) (calls j).audit_id =
      group AuditEventRecord.audit_id arrived (calls j).audit_id := by
    simp [group, hne]
  rw [hgroup, processRecord_other hne, h.unfinished j]

/-- A record matters to its own call only. -/
theorem Assembled.advance {arrived : List AuditEventRecord} {s : Assembly}
    (h : Assembled calls arrived s) (hids : Function.Injective fun i => (calls i).audit_id)
    {record : AuditEventRecord} {i : ι} (hid : record.audit_id = (calls i).audit_id)
    (hself : (processRecord unhex executable_path s record).trace_context[record.audit_id]? =
      (calls i).unfinished
        (group AuditEventRecord.audit_id arrived (calls i).audit_id ++ [record]))
    (hemitted : ∃ order : List ι,
      ((arrived ++ [record]).filter fun record => record.type = AUDIT_EOE) =
          order.map (fun i => (calls i).eoe) ∧
        (processRecord unhex executable_path s record).audit_events =
          order.map fun i => (calls i).assembled) :
    Assembled calls (arrived ++ [record]) (processRecord unhex executable_path s record) := by
  constructor
  · intro j
    by_cases hj : j = i
    · have hafter : group AuditEventRecord.audit_id (arrived ++ [record]) (calls i).audit_id =
          group AuditEventRecord.audit_id arrived (calls i).audit_id ++ [record] := by
        simp [group, hid]
      rw [hj, hafter, ← hself, hid]
    · apply h.unfinished_other
      rw [hid]
      exact fun heq => hj (hids heq).symm
  · exact hemitted

theorem Assembled.step {arrived rest : List AuditEventRecord} {s : Assembly}
    (h : Assembled calls arrived s) {record : AuditEventRecord} {i : ι}
    (hids : Function.Injective fun i => (calls i).audit_id) (hrecord : record ∈ (calls i).records)
    (hgroup : group AuditEventRecord.audit_id (arrived ++ record :: rest) (calls i).audit_id =
      (calls i).records) :
    Assembled calls (arrived ++ [record]) (processRecord unhex executable_path s record) := by
  have hid : record.audit_id = (calls i).audit_id := (calls i).ids record hrecord
  have hsplit : group AuditEventRecord.audit_id arrived (calls i).audit_id ++
      record :: group AuditEventRecord.audit_id rest (calls i).audit_id = (calls i).records := by
    rw [← hgroup]
    simp [group, hid]
  have hbefore := h.unfinished i
  obtain ⟨order, heoes, hevents⟩ := h.emitted
  obtain ⟨hnil, hfirst⟩ | ⟨a, b, ha, hb⟩ | ⟨hall, hlast⟩ := (calls i).position hsplit
  · have htype : record.type = AUDIT_SYSCALL := by rw [hfirst, (calls i).syscall_type]
    have hdata : syscallData unhex executable_path record = some (calls i).data := by
      rw [hfirst, (calls i).syscallData_eq]
    have hstep := processRecord_syscall (s := s) htype hdata
    apply h.advance hids hid
    · rw [hnil, (calls i).unfinished_of_length (by simp) (by simp [AuditedCall.records]), hstep]
      simp
    · use order
      rw [hstep, List.filter_append, heoes, hevents]
      simp [htype, AUDIT_SYSCALL, AUDIT_EOE]
  · have htype : IsAttached record.type := by
      apply (calls i).attached_type
      rw [hb]
      simp
    rw [ha, (calls i).unfinished_of_length (by simp) (by simp [AuditedCall.records, hb]),
      ← hid] at hbefore
    have hstep : processRecord unhex executable_path s record = _ :=
      processRecord_attached htype hbefore
    apply h.advance hids hid
    · rw [ha, (calls i).unfinished_of_length (by simp) (by simp [AuditedCall.records, hb]), hstep]
      simp
    · use order
      rw [hstep, List.filter_append, heoes, hevents]
      simp [htype.2.2.2]
  · have htype : record.type = AUDIT_EOE := by rw [hlast, (calls i).eoe_type]
    rw [hall, (calls i).unfinished_of_length (by simp) (by simp [AuditedCall.records]),
      ← hid] at hbefore
    have hstep : processRecord unhex executable_path s record = _ :=
      processRecord_eoe htype hbefore
    apply h.advance hids hid
    · have hdone : group AuditEventRecord.audit_id arrived (calls i).audit_id ++ [record] =
          (calls i).records := by
        rw [hall, hlast]
        rfl
      rw [hdone, hstep]
      simp [AuditedCall.unfinished]
    · use order ++ [i]
      rw [hstep, List.filter_append, heoes, hevents]
      simp [hlast, (calls i).eoe_type, AuditedCall.assembled]

/-- Events that are not too old survive the end of a batch. -/
theorem Assembled.dropOld {arrived : List AuditEventRecord} {s : Assembly}
    (h : Assembled calls arrived s) {current_time : ℤ}
    (hage : ∀ i, current_time - eventTimestamp (calls i).audit_id < 300) :
    Assembled calls arrived ⟨s.audit_events, dropOld current_time s.trace_context⟩ := by
  constructor
  · intro i
    rw [← h.unfinished i, EventPublishers.dropOld, Std.ExtTreeMap.getElem?_filter']
    cases s.trace_context[(calls i).audit_id]? with
    | none => rfl
    | some event => simp [hage i]
  · exact h.emitted

/-! ### Batches -/

/-- The records of a stream are those of the calls, in the order of each call. -/
structure Streamed (calls : ι → AuditedCall unhex executable_path)
    (stream : List AuditEventRecord) : Prop where
  ids : Function.Injective fun i => (calls i).audit_id
  owned : ∀ record ∈ stream, ∃ i, record ∈ (calls i).records
  ordered : ∀ i, group AuditEventRecord.audit_id stream (calls i).audit_id = (calls i).records

theorem Streamed.of_merge [DecidableEq ι] {stream : List AuditEventRecord}
    (hids : Function.Injective fun i => (calls i).audit_id)
    (h : Merge (fun i => (calls i).records) stream) : Streamed calls stream := by
  constructor
  · exact hids
  · intro record hrecord
    exact (h.mem_iff record).mp hrecord
  · intro i
    exact h.group_eq AuditEventRecord.audit_id hids (fun j => (calls j).ids) i

theorem Assembled.foldl {stream arrived rest : List AuditEventRecord} {s : Assembly}
    (h : Assembled calls arrived s) (hstream : Streamed calls stream)
    (records : List AuditEventRecord) (hsplit : arrived ++ (records ++ rest) = stream) :
    Assembled calls (arrived ++ records)
      (records.foldl (processRecord unhex executable_path) s) := by
  induction records generalizing arrived s with
  | nil => simpa using h
  | cons record records ih =>
      have hmem : record ∈ stream := by
        rw [← hsplit]
        simp
      obtain ⟨i, hi⟩ := hstream.owned record hmem
      have hgroup := hstream.ordered i
      rw [← hsplit, List.cons_append] at hgroup
      have hnext := ih (h.step hstream.ids hi hgroup) (by simpa using hsplit)
      simpa using hnext

theorem processRecord_audit_events (record : AuditEventRecord) (events : List AuditEvent)
    (trace_context : AuditTraceContext) :
    processRecord unhex executable_path ⟨events, trace_context⟩ record =
      ⟨events ++ (processRecord unhex executable_path ⟨[], trace_context⟩ record).audit_events,
        (processRecord unhex executable_path ⟨[], trace_context⟩ record).trace_context⟩ := by
  rw [processRecord, processRecord]
  split
  · rfl
  · split
    · rfl
    · split
      · cases syscallData unhex executable_path record with
        | none => simp
        | some data => simp
      · split
        · cases trace_context[record.audit_id]? with
          | none => simp
          | some event => simp
        · cases trace_context[record.audit_id]? with
          | none => simp
          | some event => simp

/-- What was emitted before some records stays in front of what they emit. -/
theorem foldl_audit_events (records : List AuditEventRecord) (events : List AuditEvent)
    (trace_context : AuditTraceContext) :
    records.foldl (processRecord unhex executable_path) ⟨events, trace_context⟩ =
      ⟨events ++
          (records.foldl (processRecord unhex executable_path) ⟨[], trace_context⟩).audit_events,
        (records.foldl (processRecord unhex executable_path)
          ⟨[], trace_context⟩).trace_context⟩ := by
  induction records generalizing events trace_context with
  | nil => simp
  | cons record records ih =>
      rw [List.foldl_cons, List.foldl_cons, processRecord_audit_events, ih]
      have hrest := ih (processRecord unhex executable_path ⟨[], trace_context⟩ record).audit_events
        (processRecord unhex executable_path ⟨[], trace_context⟩ record).trace_context
      rw [hrest, List.append_assoc]

/-- Batches that hold the beginning of a stream. -/
theorem Assembled.processBatches {stream arrived : List AuditEventRecord}
    {events : List AuditEvent} {trace_context : AuditTraceContext}
    (h : Assembled calls arrived ⟨events, trace_context⟩) (hstream : Streamed calls stream)
    (rest : List AuditEventRecord) (batches : List (ℤ × List AuditEventRecord))
    (hsplit : arrived ++ (batches.flatMap Prod.snd ++ rest) = stream)
    (hage : ∀ batch ∈ batches, ∀ i, batch.1 - eventTimestamp (calls i).audit_id < 300) :
    Assembled calls (arrived ++ batches.flatMap Prod.snd)
      ⟨events ++ (processBatches unhex executable_path batches trace_context).1,
        (processBatches unhex executable_path batches trace_context).2⟩ := by
  induction batches generalizing arrived events trace_context with
  | nil => simpa [EventPublishers.processBatches] using h
  | cons batch batches ih =>
      obtain ⟨current_time, records⟩ := batch
      rw [List.flatMap_cons, List.append_assoc] at hsplit
      have hfold := h.foldl hstream records hsplit
      rw [foldl_audit_events] at hfold
      have hdrop := hfold.dropOld (hage (current_time, records) List.mem_cons_self)
      have hrest := ih hdrop (by rw [List.append_assoc]; exact hsplit)
        fun b hb => hage b (List.mem_cons_of_mem _ hb)
      simpa [EventPublishers.processBatches, processEvents, List.append_assoc] using hrest

/-- Every call has one place in the order of the terminators. -/
theorem nodup_of_streamed [DecidableEq ι] {stream : List AuditEventRecord}
    (h : Streamed calls stream) {order : List ι}
    (horder : (stream.filter fun record => record.type = AUDIT_EOE) =
      order.map fun i => (calls i).eoe) : order.Nodup ∧ ∀ i, i ∈ order := by
  have hattached : ∀ i, ((calls i).attached.filter fun record => record.type = AUDIT_EOE) = [] := by
    intro i
    rw [List.filter_eq_nil_iff]
    intro record hrecord
    simpa using ((calls i).attached_type record hrecord).2.2.2
  have hone : ∀ i, ((calls i).records.filter fun record => record.type = AUDIT_EOE) =
      [(calls i).eoe] := by
    intro i
    rw [AuditedCall.records, List.filter_cons_of_neg, List.filter_append, hattached]
    · simp [(calls i).eoe_type]
    · simp [(calls i).syscall_type, AUDIT_SYSCALL, AUDIT_EOE]
  have hcount : ∀ i, order.count i = 1 := by
    intro i
    have hid : ∀ j, (calls j).eoe.audit_id = (calls i).audit_id ↔ j = i := by
      intro j
      rw [(calls j).ids _ (by simp)]
      exact ⟨fun heq => h.ids heq, fun heq => by rw [heq]⟩
    calc order.count i
        = (order.filter fun j => (calls j).eoe.audit_id = (calls i).audit_id).length := by
          rw [List.count_eq_length_filter]
          congr 2
          funext j
          simp [hid, beq_eq_decide]
      _ = (group AuditEventRecord.audit_id (order.map fun j => (calls j).eoe)
            (calls i).audit_id).length := by
          rw [group, List.filter_map, List.length_map]
          rfl
      _ = ((group AuditEventRecord.audit_id stream (calls i).audit_id).filter
            fun record => record.type = AUDIT_EOE).length := by
          rw [← horder, group, group, List.filter_filter, List.filter_filter]
          congr 2
          funext record
          rw [Bool.and_comm]
      _ = 1 := by
          rw [h.ordered, hone]
          rfl
  constructor
  · rw [List.nodup_iff_count_le_one]
    intro i
    rw [hcount]
  · intro i
    rw [← List.count_pos_iff, hcount]
    exact Nat.one_pos

/-- Every interleaving and every cut into batches completes the calls in the order of their
terminators, each with its own records up to the terminator. -/
theorem completed_in_order [DecidableEq ι] (calls : ι → AuditedCall unhex executable_path)
    (hids : Function.Injective fun i => (calls i).audit_id) (stream : List AuditEventRecord)
    (hmerge : Merge (fun i => (calls i).records) stream)
    (batches : List (ℤ × List AuditEventRecord)) (hbatches : batches.flatMap Prod.snd = stream)
    (hage : ∀ batch ∈ batches, ∀ i, batch.1 - eventTimestamp (calls i).audit_id < 300)
    (trace_context : AuditTraceContext) (hnew : ∀ i, trace_context[(calls i).audit_id]? = none) :
    ∃ order : List ι, order.Nodup ∧ (∀ i, i ∈ order) ∧
      (stream.filter fun record => record.type = AUDIT_EOE) =
        order.map (fun i => (calls i).eoe) ∧
      (processBatches unhex executable_path batches trace_context).1 =
        order.map (fun i => (calls i).assembled) ∧
      ∀ i, (processBatches unhex executable_path batches trace_context).2[(calls i).audit_id]? =
        none := by
  have hstream := Streamed.of_merge hids hmerge
  have hend := (Assembled.start hnew).processBatches hstream [] batches
    (by rw [List.nil_append, List.append_nil, hbatches]) hage
  rw [List.nil_append, hbatches] at hend
  obtain ⟨order, horder, hevents⟩ := hend.emitted
  obtain ⟨hnodup, hall⟩ := nodup_of_streamed hstream horder
  refine ⟨order, hnodup, hall, horder, by simpa using hevents, ?_⟩
  intro i
  rw [hend.unfinished i, hstream.ordered i, AuditedCall.unfinished, if_pos (Or.inr rfl)]

/-! ### Two calls -/

def noHex : String → Option String := fun _ => none

def sampleFields : Std.ExtTreeMap String String :=
  Std.ExtTreeMap.ofList [("exe", "\"/bin/ls\""), ("syscall", "2"), ("pid", "7"), ("ppid", "1"),
    ("uid", "0"), ("euid", "0"), ("gid", "0"), ("egid", "0"), ("success", "yes")]

/-- A call with one attached record. -/
def sampleCall (audit_id : String) : AuditedCall noHex "/usr/bin/osqueryd" where
  audit_id
  syscall := ⟨AUDIT_SYSCALL, 0, audit_id, sampleFields, ""⟩
  attached := [⟨1302, 0, audit_id, ∅, ""⟩]
  eoe := ⟨AUDIT_EOE, 0, audit_id, ∅, ""⟩
  ids := by simp
  accepted := by
    constructor
    · have hexe : sampleFields["exe"]? = some "\"/bin/ls\"" := by decide
      exact ⟨"\"/bin/ls\"", hexe, by decide⟩
    · intro status hstatus
      have hyes : sampleFields["success"]? = some "yes" := by decide
      rw [hyes] at hstatus
      exact (Option.some.inj hstatus).symm
    · intro name hname
      revert name
      change ∀ name ∈ ["syscall", "pid", "ppid", "uid", "euid", "gid", "egid"],
        (getIntegerFieldFromMap sampleFields name).isSome
      decide
  syscall_type := rfl
  attached_type := by
    intro record hrecord
    rw [List.mem_singleton.mp hrecord]
    change IsAttached 1302
    exact ⟨by decide, by decide, by decide, by decide⟩
  eoe_type := rfl

/-- The calls of two processes, one inside the other. -/
def sampleCalls (b : Bool) : AuditedCall noHex "/usr/bin/osqueryd" :=
  sampleCall (if b then "1501323932.710:1" else "1501323932.710:2")

def sampleStream : List AuditEventRecord :=
  [(sampleCalls true).syscall, (sampleCalls false).syscall] ++ (sampleCalls false).attached ++
    (sampleCalls true).attached ++ [(sampleCalls false).eoe, (sampleCalls true).eoe]

theorem sampleStream_merge : Merge (fun b => (sampleCalls b).records) sampleStream := by
  apply Merge.cons true rfl
  apply Merge.cons false rfl
  apply Merge.cons false rfl
  apply Merge.cons true rfl
  apply Merge.cons false rfl
  apply Merge.cons true rfl
  apply Merge.nil
  intro b
  cases b with
  | false => rfl
  | true => rfl

/-- Two calls in two batches. -/
theorem completed_in_order_two :
    ∃ order : List Bool, order.Nodup ∧ (∀ b, b ∈ order) ∧
      (sampleStream.filter fun record => record.type = AUDIT_EOE) =
        order.map (fun b => (sampleCalls b).eoe) ∧
      (processBatches noHex "/usr/bin/osqueryd"
        [(1501323933, sampleStream.take 3), (1501323934, sampleStream.drop 3)] ∅).1 =
        order.map (fun b => (sampleCalls b).assembled) ∧
      ∀ b, (processBatches noHex "/usr/bin/osqueryd"
        [(1501323933, sampleStream.take 3), (1501323934, sampleStream.drop 3)]
          ∅).2[(sampleCalls b).audit_id]? = none := by
  apply completed_in_order sampleCalls
  · intro b c
    revert b c
    decide
  · exact sampleStream_merge
  · rfl
  · intro batch hbatch b
    have htime : ∀ b, eventTimestamp (sampleCalls b).audit_id = 1501323932 := by decide
    rw [htime b]
    simp only [List.mem_cons, List.not_mem_nil, or_false] at hbatch
    obtain rfl | rfl := hbatch
    · decide
    · decide
  · intro b
    simp

/-- The terminator of a call is a record of the call that its event does not have. -/
theorem terminator_not_carried :
    (processBatches noHex "/usr/bin/osqueryd" [(1501323933, (sampleCalls true).records)]
      ∅).1.map AuditEvent.record_list ≠ [(sampleCalls true).records] := by
  intro h
  have hlengths := congrArg (List.map List.length) h
  revert hlengths
  decide

end Osquery.EventPublishers
