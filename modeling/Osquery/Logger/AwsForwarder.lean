import Osquery.Core.Status
import Osquery.Logger.Conservation

/-!
# The forwarder of lines to AWS

A forwarder of AWS makes records of the lines that the buffered forwarder hands over, and puts
them into batches within the limits of the protocol. Every batch is requested again, without
the records that were accepted, until nothing of it is left or the retries are used up. One
batch that has something left fails the whole call.

## Implementation notes

The outcomes of the requests are inputs, by the number of the batch and that of the retry. A
record carries the index of its line along, and the requests are recorded with their outcomes;
the source has neither. Pauses and error logs are left out, and so is a partition key. The
document of a record is made by a function that is given.
-/

namespace Osquery.Logger

open Core

/-- A record with the index of its line. -/
abbrev Record := String × String

abbrev Batch := List Record

/-- A whole request fails, or every record has an error code, which is empty when it was
accepted. -/
inductive Outcome
  | failure (message : String)
  | result (failedRecordCount : ℕ) (errorCodes : List String)

def Outcome.message : Outcome → String
  | .failure message => message
  | .result _ _ => ""

def Outcome.failed_record_count (batch : Batch) : Outcome → ℕ
  | .failure _ => batch.length
  | .result failedRecordCount _ => failedRecordCount

/-- The records that an outcome reports as accepted. -/
def Outcome.accepted (batch : Batch) : Outcome → Batch
  | .failure _ => []
  | .result _ errorCodes => ((batch.zip errorCodes).filter fun entry => entry.2 == "").map (·.1)

/-- The records that are tried again. -/
def Outcome.left (batch : Batch) : Outcome → Batch
  | .failure _ => batch
  | .result _ errorCodes => ((batch.zip errorCodes).filter fun entry => entry.2 != "").map (·.1)

/-- The outcome has a code for every record, and its count is that of the errors. -/
def Outcome.Consistent (batch : Batch) : Outcome → Prop
  | .failure _ => True
  | .result failedRecordCount errorCodes =>
      errorCodes.length = batch.length ∧
        failedRecordCount = errorCodes.countP fun code => code != ""

/-- One request, with its outcome. -/
structure Call where
  batch : Batch
  outcome : Outcome

def Call.accepted (call : Call) : Batch := call.outcome.accepted call.batch

/-- What a plugin derived from the forwarder fixes. -/
structure AwsLogForwarder extends Forwarder where
  appendLogTypeToJson : String → String → Option String
  getMaxBytesPerRecord : ℕ
  getMaxRecordsPerBatch : ℕ
  getMaxBytesPerBatch : ℕ
  getMaxRetryCount : ℕ
  appendNewlineSeparators : Bool

/-- Batches that are being filled. -/
structure Generated where
  discarded_records : List String := []
  batch_list : List Batch := []
  current_batch : Batch := []
  current_batch_byte_size : ℕ := 0

/-- A buffered forwarder with the requests that it made. -/
structure AwsState extends State where
  calls : List Call

structure Sending where
  success : Bool
  batch : Batch
  status_output : String
  calls : List Call

namespace AwsLogForwarder

variable (f : AwsLogForwarder)

/-! ### Batches -/

/-- The batch that is being filled is complete. -/
def completeBatch (g : Generated) (record_size : ℕ) : Generated :=
  if g.current_batch_byte_size + record_size ≥ f.getMaxBytesPerBatch ∨
      g.current_batch.length ≥ f.getMaxRecordsPerBatch then
    { g with
      batch_list := g.batch_list ++ [g.current_batch]
      current_batch := []
      current_batch_byte_size := 0 }
  else g

def recordSize (record : String) : ℕ :=
  record.utf8ByteSize + if f.appendNewlineSeparators then 1 else 0

def recordData (record : String) : String :=
  if f.appendNewlineSeparators then record ++ "\n" else record

def generate (log_type : String) (g : Generated) (line : Line) : Generated :=
  match f.appendLogTypeToJson log_type line.2 with
  | none => g
  | some record =>
      let record_size := f.recordSize record
      if record_size ≥ f.getMaxBytesPerRecord ∨ record_size ≥ f.getMaxBytesPerBatch then
        { g with discarded_records := g.discarded_records ++ [record] }
      else
        let g := f.completeBatch g record_size
        { g with
          current_batch := g.current_batch ++ [(line.1, f.recordData record)]
          current_batch_byte_size := g.current_batch_byte_size + record_size }

def consumeDataAndGenerateBatches (log_type : String) (log_data : List Line) : List Batch :=
  let g := log_data.foldl (f.generate log_type) {}
  if g.current_batch ≠ [] then g.batch_list ++ [g.current_batch] else g.batch_list

/-! ### Requests -/

/-- The retries that are left, each with its outcome. -/
def sendBatch (outcomes : ℕ → Outcome) : ℕ → Batch → String → Sending
  | 0, batch, status_output => ⟨false, batch, status_output, []⟩
  | retries + 1, batch, status_output =>
      let outcome := outcomes 0
      if outcome.failed_record_count batch = 0 then
        ⟨true, batch, status_output, [⟨batch, outcome⟩]⟩
      else
        let status_output :=
          if retries = 0 then
            (if status_output ≠ "" then status_output ++ "\n" else status_output) ++ outcome.message
          else status_output
        let sending := sendBatch (fun retry => outcomes (retry + 1)) retries (outcome.left batch)
          status_output
        { sending with calls := ⟨batch, outcome⟩ :: sending.calls }

/-- The errors, their messages and the requests of batches that are sent one after another. -/
def sendBatches (outcomes : ℕ → ℕ → Outcome) : List Batch → String → ℕ × String × List Call
  | [], status_output => (0, status_output, [])
  | batch :: batch_list, status_output =>
      let sending := sendBatch (outcomes 0) f.getMaxRetryCount batch status_output
      let rest := sendBatches (fun number => outcomes (number + 1)) batch_list sending.status_output
      ((if sending.success then 0 else 1) + rest.1, rest.2.1, sending.calls ++ rest.2.2)

def send (outcomes : ℕ → ℕ → Outcome) (log_data : List Line) (log_type : String) :
    Status × List Call :=
  let sent := f.sendBatches outcomes (f.consumeDataAndGenerateBatches log_type log_data) ""
  (if sent.1 ≠ 0 then ⟨1, sent.2.1⟩ else ⟨0, "OK"⟩, sent.2.2)

/-! ### Steps -/

/-- The lines of a phase are sent, if there are any. -/
def sendLines (outcomes : ℕ → ℕ → Outcome) (lines : List Line) (log_type : String)
    (s : AwsState) : AwsState :=
  if lines = [] then { s with toState := f.advance false 0 s.toState }
  else
    let sent := f.send outcomes lines log_type
    { toState := f.advance sent.1.ok 0 s.toState, calls := s.calls ++ sent.2 }

/-- The next step of `check`. -/
def advanceSending (outcomes : ℕ → ℕ → Outcome) (buffered_log_max : ℕ) (s : AwsState) :
    AwsState :=
  if s.discounting then { s with toState := f.advance false buffered_log_max s.toState }
  else
    match s.phase with
    | .sendingResults _ results _ => f.sendLines outcomes results "result" s
    | .sendingStatuses _ statuses => f.sendLines outcomes statuses "status" s
    | _ => { s with toState := f.advance false buffered_log_max s.toState }

inductive Action
  | setUp
  | store (results : Bool) (text : String) (time now : ℕ)
  | count (key : String)
  | check (outcomes : ℕ → ℕ → Outcome) (buffered_log_max : ℕ)

def step (s : AwsState) : Action → AwsState
  | .setUp => { s with toState := f.setUp s.toState }
  | .store results text time now =>
      { s with toState := f.storeLine results text time now s.toState }
  | .count key => { s with toState := countValue key s.toState }
  | .check outcomes buffered_log_max => f.advanceSending outcomes buffered_log_max s

def run (actions : List Action) (s : AwsState) : AwsState := actions.foldl f.step s

end AwsLogForwarder

/-! ### Requests keep apart -/

/-- Nothing that the first request got accepted is in the second one. -/
def Call.Apart (call call' : Call) : Prop :=
  ∀ r ∈ call.accepted, ∀ r' ∈ call'.batch, r.1 ≠ r'.1

theorem map_zip_sublist {β : Type} (batch : Batch) (codes : List β) :
    ((batch.zip codes).map (·.1)).Sublist batch := by
  induction batch generalizing codes with
  | nil => simp
  | cons r batch ih =>
      cases codes with
      | nil => simp
      | cons code codes => exact (ih codes).cons_cons r

theorem Outcome.left_sublist (batch : Batch) (outcome : Outcome) :
    (outcome.left batch).Sublist batch := by
  cases outcome with
  | failure message => exact List.Sublist.refl batch
  | result failedRecordCount errorCodes =>
      exact (List.filter_sublist.map _).trans (map_zip_sublist batch errorCodes)

theorem Outcome.accepted_sublist (batch : Batch) (outcome : Outcome) :
    (outcome.accepted batch).Sublist batch := by
  cases outcome with
  | failure message => exact List.nil_sublist batch
  | result failedRecordCount errorCodes =>
      exact (List.filter_sublist.map _).trans (map_zip_sublist batch errorCodes)

/-- A record with its own index is accepted or left, not both. -/
theorem Outcome.left_ne_accepted {batch : Batch} (hnodup : (batch.map (·.1)).Nodup)
    (outcome : Outcome) :
    ∀ r ∈ outcome.accepted batch, ∀ r' ∈ outcome.left batch, r.1 ≠ r'.1 := by
  cases outcome with
  | failure message => exact fun r hr => absurd hr List.not_mem_nil
  | result failedRecordCount errorCodes =>
      intro r hr r' hr' heq
      obtain ⟨entry, hentry, rfl⟩ := List.mem_map.mp hr
      obtain ⟨entry', hentry', rfl⟩ := List.mem_map.mp hr'
      obtain ⟨hentry, haccepted⟩ := List.mem_filter.mp hentry
      obtain ⟨hentry', hleft⟩ := List.mem_filter.mp hentry'
      have hkeys : ((batch.zip errorCodes).map fun entry => entry.1.1).Nodup := by
        have hsub := (map_zip_sublist batch errorCodes).map fun r : Record => r.1
        rw [List.map_map] at hsub
        exact hnodup.sublist hsub
      have hsame := List.inj_on_of_nodup_map hkeys hentry hentry' heq
      rw [hsame] at haccepted
      rw [bne, haccepted] at hleft
      exact absurd hleft Bool.false_ne_true

namespace AwsLogForwarder

variable (f : AwsLogForwarder)

/-- What is accepted of a batch is not requested again by its retries. -/
theorem sendBatch_calls (outcomes : ℕ → Outcome) (retries : ℕ) {batch : Batch}
    (status_output : String) (hnodup : (batch.map (·.1)).Nodup) :
    (∀ call ∈ (sendBatch outcomes retries batch status_output).calls,
      call.batch.Sublist batch) ∧
    (sendBatch outcomes retries batch status_output).calls.Pairwise Call.Apart := by
  induction retries generalizing outcomes batch status_output with
  | zero => exact ⟨fun call hcall => absurd hcall List.not_mem_nil, List.Pairwise.nil⟩
  | succ retries ih =>
      rw [sendBatch]
      split
      · refine ⟨fun call hcall => ?_, List.pairwise_singleton _ _⟩
        rw [List.mem_singleton.mp hcall]
      · have hleft := (outcomes 0).left_sublist batch
        obtain ⟨hsub, hapart⟩ := ih (fun retry => outcomes (retry + 1))
          (if retries = 0 then (if status_output ≠ "" then status_output ++ "\n" else status_output)
            ++ (outcomes 0).message else status_output) (hnodup.sublist (hleft.map _))
        constructor
        · intro call hcall
          rcases List.mem_cons.mp hcall with rfl | hcall
          · exact List.Sublist.refl batch
          · exact (hsub call hcall).trans hleft
        · apply List.pairwise_cons.mpr
          refine ⟨?_, hapart⟩
          intro call hcall r hr r' hr'
          exact Outcome.left_ne_accepted hnodup (outcomes 0) r hr r' ((hsub call hcall).subset hr')

/-- Batches of different lines are requested apart. -/
theorem sendBatches_calls (outcomes : ℕ → ℕ → Outcome) {batch_list : List Batch}
    (status_output : String) (hnodup : (batch_list.flatten.map (·.1)).Nodup) :
    (∀ call ∈ (f.sendBatches outcomes batch_list status_output).2.2,
      ∀ r ∈ call.batch, r ∈ batch_list.flatten) ∧
    (f.sendBatches outcomes batch_list status_output).2.2.Pairwise Call.Apart := by
  induction batch_list generalizing outcomes status_output with
  | nil => exact ⟨fun call hcall => absurd hcall List.not_mem_nil, List.Pairwise.nil⟩
  | cons batch batch_list ih =>
      rw [List.flatten_cons, List.map_append, List.nodup_append'] at hnodup
      obtain ⟨hbatch, hrest, hdisjoint⟩ := hnodup
      obtain ⟨hsub, hapart⟩ := sendBatch_calls (outcomes 0) f.getMaxRetryCount status_output hbatch
      obtain ⟨hsub', hapart'⟩ := ih (fun number => outcomes (number + 1))
        (sendBatch (outcomes 0) f.getMaxRetryCount batch status_output).status_output hrest
      rw [sendBatches]
      constructor
      · intro call hcall r hr
        rw [List.flatten_cons]
        rcases List.mem_append.mp hcall with hcall | hcall
        · exact List.mem_append_left _ ((hsub call hcall).subset hr)
        · exact List.mem_append_right _ (hsub' call hcall r hr)
      · apply List.pairwise_append.mpr
        refine ⟨hapart, hapart', ?_⟩
        intro call hcall call' hcall' r hr r' hr' heq
        have haccepted := (Outcome.accepted_sublist call.batch call.outcome).subset hr
        apply hdisjoint (List.mem_map_of_mem ((hsub call hcall).subset haccepted))
        rw [heq]
        exact List.mem_map_of_mem (hsub' call' hcall' r' hr')

/-- The batches hold records of the lines, in their order. -/
theorem generate_sublist (log_type : String) (log_data : List Line) (g : Generated)
    (done : List Line)
    (h : ((g.batch_list.flatten ++ g.current_batch).map (·.1)).Sublist (done.map (·.1))) :
    (((log_data.foldl (f.generate log_type) g).batch_list.flatten ++
      (log_data.foldl (f.generate log_type) g).current_batch).map (·.1)).Sublist
        ((done ++ log_data).map (·.1)) := by
  induction log_data generalizing g done with
  | nil =>
      rw [List.append_nil]
      exact h
  | cons line log_data ih =>
      have hmore : (done ++ [line]).map (·.1) = done.map (·.1) ++ [line.1] := by simp
      have hskip : ((g.batch_list.flatten ++ g.current_batch).map (·.1)).Sublist
          ((done ++ [line]).map (·.1)) := by
        rw [hmore]
        exact h.trans (List.sublist_append_left _ _)
      rw [List.append_cons]
      apply ih
      rw [generate]
      split
      · exact hskip
      · simp only
        split
        · exact hskip
        · have hcomplete (record_size : ℕ) :
              (f.completeBatch g record_size).batch_list.flatten ++
                (f.completeBatch g record_size).current_batch =
                  g.batch_list.flatten ++ g.current_batch := by
            rw [completeBatch]
            split
            · simp
            · rfl
          rw [← List.append_assoc, hcomplete, hmore, List.map_append]
          exact h.append (List.Sublist.refl [line.1])

theorem consumeData_sublist (log_type : String) (log_data : List Line) :
    ((f.consumeDataAndGenerateBatches log_type log_data).flatten.map (·.1)).Sublist
      (log_data.map (·.1)) := by
  have h := f.generate_sublist log_type log_data {} [] (List.Sublist.refl _)
  rw [List.nil_append] at h
  rw [consumeDataAndGenerateBatches]
  split
  · rw [List.flatten_append, List.flatten_singleton]
    exact h
  · rw [List.map_append] at h
    exact (List.sublist_append_left _ _).trans h

/-- A call of `send` requests records of its lines, and none again that was accepted. -/
theorem send_calls (outcomes : ℕ → ℕ → Outcome) {log_data : List Line} (log_type : String)
    (hnodup : (log_data.map (·.1)).Nodup) :
    (∀ call ∈ (f.send outcomes log_data log_type).2, ∀ r ∈ call.batch,
      r.1 ∈ log_data.map (·.1)) ∧
    (f.send outcomes log_data log_type).2.Pairwise Call.Apart := by
  have hsub := f.consumeData_sublist log_type log_data
  obtain ⟨hmem, hapart⟩ := f.sendBatches_calls outcomes "" (hnodup.sublist hsub)
  refine ⟨?_, hapart⟩
  intro call hcall r hr
  exact hsub.subset (List.mem_map_of_mem (hmem call hcall r hr))

/-! ### Outcomes that leave nothing half done -/

end AwsLogForwarder

/-- Every record is accepted. -/
def Outcome.complete : Outcome → Prop
  | .failure _ => False
  | .result failedRecordCount _ => failedRecordCount = 0

/-- No record is accepted. -/
def Outcome.rejects : Outcome → Prop
  | .failure _ => True
  | .result _ errorCodes => ∀ code ∈ errorCodes, code ≠ ""

theorem Outcome.accepted_of_rejects {outcome : Outcome} (h : outcome.rejects) (batch : Batch) :
    outcome.accepted batch = [] := by
  cases outcome with
  | failure message => rfl
  | result failedRecordCount errorCodes =>
      rw [accepted, List.map_eq_nil_iff, List.filter_eq_nil_iff]
      intro entry hentry
      rw [beq_iff_eq]
      exact h entry.2 (List.of_mem_zip hentry).2

namespace AwsLogForwarder

variable (f : AwsLogForwarder)

theorem sendBatch_success {outcomes : ℕ → Outcome} {retries : ℕ} (batch : Batch)
    (status_output : String) (h : ∃ retry < retries, (outcomes retry).complete) :
    (sendBatch outcomes retries batch status_output).success = true := by
  induction retries generalizing outcomes batch status_output with
  | zero =>
      obtain ⟨retry, hlt, -⟩ := h
      omega
  | succ retries ih =>
      obtain ⟨retry, hlt, hcomplete⟩ := h
      rw [sendBatch]
      split
      · rfl
      · next hfailed =>
          apply ih
          cases retry with
          | zero =>
              exfalso
              apply hfailed
              cases houtcome : outcomes 0 with
              | failure message => simp [houtcome, Outcome.complete] at hcomplete
              | result failedRecordCount errorCodes =>
                  rw [houtcome] at hcomplete
                  exact hcomplete
          | succ retry => exact ⟨retry, by omega, hcomplete⟩

theorem sendBatch_rejects {outcomes : ℕ → Outcome} {retries : ℕ} (batch : Batch)
    (status_output : String) (h : ∀ retry < retries, (outcomes retry).rejects) :
    ∀ call ∈ (sendBatch outcomes retries batch status_output).calls, call.accepted = [] := by
  induction retries generalizing outcomes batch status_output with
  | zero => exact fun call hcall => absurd hcall List.not_mem_nil
  | succ retries ih =>
      have hfirst := Outcome.accepted_of_rejects (h 0 (Nat.zero_lt_succ _)) batch
      rw [sendBatch]
      split
      · intro call hcall
        rw [List.mem_singleton.mp hcall]
        exact hfirst
      · intro call hcall
        rcases List.mem_cons.mp hcall with rfl | hcall
        · exact hfirst
        · exact ih _ _ (fun retry hlt => h (retry + 1) (by omega)) call hcall

theorem sendBatches_success {outcomes : ℕ → ℕ → Outcome} {batch_list : List Batch}
    (status_output : String)
    (h : ∀ number < batch_list.length, ∃ retry < f.getMaxRetryCount,
      (outcomes number retry).complete) :
    (f.sendBatches outcomes batch_list status_output).1 = 0 := by
  induction batch_list generalizing outcomes status_output with
  | nil => rfl
  | cons batch batch_list ih =>
      have hfirst := sendBatch_success batch status_output (h 0 (Nat.zero_lt_succ _))
      rw [sendBatches]
      simp only [hfirst, if_true, Nat.zero_add]
      apply ih
      intro number hlt
      exact h (number + 1) (Nat.succ_lt_succ hlt)

theorem sendBatches_rejects {outcomes : ℕ → ℕ → Outcome} {batch_list : List Batch}
    (status_output : String)
    (h : ∀ number < batch_list.length, ∀ retry < f.getMaxRetryCount,
      (outcomes number retry).rejects) :
    ∀ call ∈ (f.sendBatches outcomes batch_list status_output).2.2, call.accepted = [] := by
  induction batch_list generalizing outcomes status_output with
  | nil => exact fun call hcall => absurd hcall List.not_mem_nil
  | cons batch batch_list ih =>
      intro call hcall
      rw [sendBatches] at hcall
      rcases List.mem_append.mp hcall with hcall | hcall
      · exact sendBatch_rejects batch status_output (h 0 (Nat.zero_lt_succ _)) call hcall
      · exact ih _ (fun number hlt => h (number + 1) (Nat.succ_lt_succ hlt)) call hcall

/-- Every batch of a call is accepted within its retries, or nothing of any batch is. -/
def Clean (outcomes : ℕ → ℕ → Outcome) (log_data : List Line) (log_type : String) : Prop :=
  (∀ number < (f.consumeDataAndGenerateBatches log_type log_data).length,
    ∃ retry < f.getMaxRetryCount, (outcomes number retry).complete) ∨
  ∀ number < (f.consumeDataAndGenerateBatches log_type log_data).length,
    ∀ retry < f.getMaxRetryCount, (outcomes number retry).rejects

theorem Clean.send {f : AwsLogForwarder} {outcomes : ℕ → ℕ → Outcome} {log_data : List Line}
    {log_type : String} (h : f.Clean outcomes log_data log_type) :
    (f.send outcomes log_data log_type).1.ok = true ∨
      ∀ call ∈ (f.send outcomes log_data log_type).2, call.accepted = [] := by
  rcases h with hcomplete | hrejects
  · left
    rw [AwsLogForwarder.send, f.sendBatches_success "" hcomplete]
    rfl
  · right
    exact f.sendBatches_rejects "" hrejects

end AwsLogForwarder

end Osquery.Logger
