import Osquery.Logger.AwsDelivery

/-!
# The retries of a batch

After a request the records that were accepted are erased from the batch, by their index and
from its back. A record is marked when a request reports it as accepted, and the marks of all
records say what every retry sends, what is left of the batch, and whether it was sent.

## Implementation notes

The marks are kept beside the batch of the first request. An error code belongs to the record
without a mark that stands at its place.
-/

namespace Osquery.Logger

/-- The records below an index that have no error code are erased, the last one first. -/
def eraseSent (result_record_list : List String) : ℕ → Batch → Batch
  | 0, batch => batch
  | i + 1, batch =>
      if result_record_list.getD i "" ≠ "" then eraseSent result_record_list i batch
      else eraseSent result_record_list i (batch.eraseIdx i)

/-- The batch after a request that did not accept all of it. -/
def Outcome.erased (batch : Batch) : Outcome → Batch
  | .failure _ => batch
  | .result _ result_record_list => eraseSent result_record_list batch.length batch

namespace AwsLogForwarder

/-- The loop of the retries, over the batch that is erased in place. -/
def sendErasing (outcomes : ℕ → Outcome) : ℕ → Batch → String → Sending
  | 0, batch, status_output => ⟨false, batch, status_output, []⟩
  | retries + 1, batch, status_output =>
      let outcome := outcomes 0
      if outcome.failed_record_count batch = 0 then
        ⟨true, batch, status_output, [⟨batch, outcome⟩]⟩
      else
        let status_output :=
          if retries = 0 then
            (if status_output ≠ "" then status_output ++ "\n" else status_output) ++ outcome.message
          else status_output
        let sending := sendErasing (fun retry => outcomes (retry + 1)) retries
          (outcome.erased batch) status_output
        { sending with calls := ⟨batch, outcome⟩ :: sending.calls }

end AwsLogForwarder

/-! ### Erasing from the back -/

theorem eraseSent_eq {result_record_list : List String} {i : ℕ} {batch : Batch}
    (hbatch : i ≤ batch.length) (hcodes : i ≤ result_record_list.length) :
    eraseSent result_record_list i batch =
      (((batch.take i).zip (result_record_list.take i)).filter fun entry => entry.2 != "").map
        (·.1) ++ batch.drop i := by
  induction i generalizing batch with
  | zero => rfl
  | succ i ih =>
      have hlast : (batch.take (i + 1)).zip (result_record_list.take (i + 1)) =
          (batch.take i).zip (result_record_list.take i) ++
            [(batch[i], result_record_list[i])] := by
        rw [← List.take_append_getElem hbatch, ← List.take_append_getElem hcodes]
        apply List.zip_append
        rw [List.length_take, List.length_take]
        omega
      rw [eraseSent, List.getD_eq_getElem?_getD, List.getElem?_eq_getElem hcodes,
        Option.getD_some, hlast, List.filter_append, List.map_append, List.append_assoc]
      split
      · next hcode =>
          rw [ih (Nat.le_of_succ_le hbatch) (Nat.le_of_succ_le hcodes),
            List.drop_eq_getElem_cons hbatch]
          simp [hcode]
      · next hcode =>
          have hlength : i ≤ (batch.eraseIdx i).length := by
            rw [List.length_eraseIdx]
            split <;> omega
          have htake : (batch.take i).length = i := by
            rw [List.length_take]
            omega
          rw [ih hlength (Nat.le_of_succ_le hcodes), List.eraseIdx_eq_take_drop_succ,
            List.take_left' htake, List.drop_left' htake]
          simp [not_not.mp hcode]

/-- What is erased from the back is what the outcome accepts. -/
theorem Outcome.erased_eq_left {batch : Batch} {outcome : Outcome}
    (h : outcome.Consistent batch) : outcome.erased batch = outcome.left batch := by
  cases outcome with
  | failure message => rfl
  | result failedRecordCount errorCodes =>
      obtain ⟨hlength, -⟩ := h
      rw [erased, eraseSent_eq (le_refl _) (le_of_eq hlength.symm), List.take_length, ← hlength,
        List.take_length, hlength, List.drop_length, List.append_nil]
      rfl

/-- Erasing in place sends what the retries of the delivery send. -/
theorem AwsLogForwarder.sendErasing_eq_sendBatch {outcomes : ℕ → Outcome} {retries : ℕ}
    {batch : Batch} {status_output : String}
    (h : ∀ call ∈ (sendErasing outcomes retries batch status_output).calls,
      call.outcome.Consistent call.batch) :
    sendErasing outcomes retries batch status_output =
      sendBatch outcomes retries batch status_output := by
  induction retries generalizing outcomes batch status_output with
  | zero => rfl
  | succ retries ih =>
      rw [sendErasing] at h ⊢
      rw [sendBatch]
      split at h
      · next hsent => rw [if_pos hsent, if_pos hsent]
      · next hsent =>
          rw [if_neg hsent, if_neg hsent]
          have hfirst := h ⟨batch, outcomes 0⟩ List.mem_cons_self
          have hrest := ih fun call hcall => h call (List.mem_cons_of_mem _ hcall)
          rw [Outcome.erased_eq_left hfirst] at hrest
          simp only [Outcome.erased_eq_left hfirst, hrest]

/-! ### Marks -/

/-- Records with whether they were reported as accepted. -/
abbrev Marks := List (Record × Bool)

namespace Marks

def fresh (batch : Batch) : Marks := batch.map fun record => (record, false)

/-- The records that were not accepted yet, in the order of the batch. -/
def pending (marks : Marks) : Batch := (marks.filter fun entry => !entry.2).map (·.1)

/-- Every record was accepted. -/
def Done (marks : Marks) : Prop := ∀ entry ∈ marks, entry.2 = true

/-- The codes of a request go to the records that it was made with. -/
def mark : Marks → List String → Marks
  | [], _ => []
  | entry :: marks, codes =>
      if entry.2 = true then entry :: mark marks codes
      else (entry.1, codes.head? == some "") :: mark marks codes.tail

def after (marks : Marks) : Outcome → Marks
  | .failure _ => marks
  | .result _ errorCodes => marks.mark errorCodes

/-- The marks after a number of requests. -/
def run (outcomes : ℕ → Outcome) (marks : Marks) : ℕ → Marks
  | 0 => marks
  | requests + 1 => (run outcomes marks requests).after (outcomes requests)

theorem run_succ (outcomes : ℕ → Outcome) (marks : Marks) (requests : ℕ) :
    run outcomes marks (requests + 1) =
      run (fun request => outcomes (request + 1)) (marks.after (outcomes 0)) requests := by
  induction requests with
  | zero => rfl
  | succ requests ih => rw [run, ih, run]

@[simp] theorem pending_fresh (batch : Batch) : (fresh batch).pending = batch := by
  simp [pending, fresh, List.filter_map, Function.comp_def]

theorem pending_eq_nil {marks : Marks} : marks.pending = [] ↔ marks.Done := by
  simp [pending, Done, List.filter_eq_nil_iff]

theorem pending_cons (entry : Record × Bool) (marks : Marks) :
    pending (entry :: marks) = if entry.2 = true then marks.pending
      else entry.1 :: marks.pending := by
  cases hentry : entry.2 <;> simp [pending, hentry]

theorem pending_mark {marks : Marks} {codes : List String}
    (hlength : codes.length = marks.pending.length) :
    (marks.mark codes).pending =
      ((marks.pending.zip codes).filter fun entry => entry.2 != "").map (·.1) := by
  induction marks generalizing codes with
  | nil => rfl
  | cons entry marks ih =>
      rw [pending_cons] at hlength ⊢
      rw [mark]
      split at hlength
      · next hmarked =>
          rw [if_pos hmarked, if_pos hmarked, pending_cons, if_pos hmarked, ih hlength]
      · next hmarked =>
          rw [if_neg hmarked, if_neg hmarked]
          cases codes with
          | nil => simp at hlength
          | cons code codes =>
              rw [pending_cons, List.tail_cons, ih (Nat.succ.inj hlength)]
              by_cases hcode : code = "" <;> simp [hcode]

/-- A request leaves the records that it did not accept. -/
theorem pending_after {marks : Marks} {outcome : Outcome}
    (h : outcome.Consistent marks.pending) :
    (marks.after outcome).pending = outcome.left marks.pending := by
  cases outcome with
  | failure message => rfl
  | result failedRecordCount errorCodes => exact pending_mark h.1

/-- No record failed exactly when all of them are accepted. -/
theorem failed_eq_zero_iff {marks : Marks} {outcome : Outcome}
    (h : outcome.Consistent marks.pending) :
    outcome.failed_record_count marks.pending = 0 ↔ (marks.after outcome).Done := by
  rw [← pending_eq_nil, pending_after h]
  cases outcome with
  | failure message => exact List.length_eq_zero_iff
  | result failedRecordCount errorCodes =>
      obtain ⟨hlength, hcount⟩ := h
      have hsnd : ((marks.pending.zip errorCodes).map (·.2)) = errorCodes :=
        List.map_snd_zip (le_of_eq hlength)
      rw [Outcome.failed_record_count, hcount, Outcome.left, List.map_eq_nil_iff,
        List.filter_eq_nil_iff, List.countP_eq_zero]
      conv_lhs => rw [← hsnd]
      simp only [List.forall_mem_map]

end Marks

/-! ### The loop -/

namespace AwsLogForwarder

/-- What the marks say about a sending with a number of retries. -/
structure Explains (outcomes : ℕ → Outcome) (marks : Marks) (retries : ℕ) (sending : Sending) :
    Prop where
  success_iff : sending.success = true ↔
    ∃ request < retries, (marks.run outcomes (request + 1)).Done
  call : ∀ request call, sending.calls[request]? = some call →
    call.batch = (marks.run outcomes request).pending ∧ call.outcome = outcomes request
  left : sending.success = false → sending.batch = (marks.run outcomes retries).pending
  length_le : sending.calls.length ≤ retries

/-- The request that completes the batch is the last one. -/
theorem Explains.sent {outcomes : ℕ → Outcome} {marks : Marks}
    (h : (marks.after (outcomes 0)).Done) (retries : ℕ) (status_output : String) :
    Explains outcomes marks (retries + 1)
      ⟨true, marks.pending, status_output, [⟨marks.pending, outcomes 0⟩]⟩ where
  success_iff := ⟨fun _ => ⟨0, Nat.zero_lt_succ _, h⟩, fun _ => rfl⟩
  call := by
    intro request call hcall
    cases request with
    | zero =>
        obtain rfl : (⟨marks.pending, outcomes 0⟩ : Call) = call := Option.some.inj hcall
        exact ⟨rfl, rfl⟩
    | succ request => simp at hcall
  left hfalse := absurd hfalse Bool.noConfusion
  length_le := Nat.le_add_left 1 retries

/-- After a request that leaves records, the retries go on with their marks. -/
theorem Explains.retry {outcomes : ℕ → Outcome} {marks : Marks} {retries : ℕ} {sending : Sending}
    (hleft : ¬ (marks.after (outcomes 0)).Done)
    (h : Explains (fun request => outcomes (request + 1)) (marks.after (outcomes 0)) retries
      sending) :
    Explains outcomes marks (retries + 1)
      { sending with calls := ⟨marks.pending, outcomes 0⟩ :: sending.calls } where
  success_iff := by
    refine h.success_iff.trans ⟨?_, ?_⟩
    · rintro ⟨request, hlt, hdone⟩
      refine ⟨request + 1, Nat.succ_lt_succ hlt, ?_⟩
      rwa [Marks.run_succ]
    · rintro ⟨request, hlt, hdone⟩
      cases request with
      | zero => exact absurd hdone hleft
      | succ request =>
          rw [Marks.run_succ] at hdone
          exact ⟨request, Nat.lt_of_succ_lt_succ hlt, hdone⟩
  call := by
    intro request call hcall
    cases request with
    | zero =>
        obtain rfl : (⟨marks.pending, outcomes 0⟩ : Call) = call := Option.some.inj hcall
        exact ⟨rfl, rfl⟩
    | succ request =>
        rw [Marks.run_succ]
        exact h.call request call hcall
  left hfalse := by
    rw [Marks.run_succ]
    exact h.left hfalse
  length_le := Nat.succ_le_succ h.length_le

theorem sendBatch_marks {outcomes : ℕ → Outcome} {retries : ℕ} {marks : Marks}
    {status_output : String}
    (h : ∀ call ∈ (sendBatch outcomes retries marks.pending status_output).calls,
      call.outcome.Consistent call.batch) :
    Explains outcomes marks retries
      (sendBatch outcomes retries marks.pending status_output) := by
  induction retries generalizing outcomes marks status_output with
  | zero => exact ⟨by simp [sendBatch], by simp [sendBatch], fun _ => rfl, le_refl 0⟩
  | succ retries ih =>
      rw [sendBatch] at h ⊢
      split at h
      · next hsent =>
          have hfirst := h ⟨marks.pending, outcomes 0⟩ List.mem_cons_self
          rw [if_pos hsent]
          exact .sent ((Marks.failed_eq_zero_iff hfirst).mp hsent) retries status_output
      · next hsent =>
          have hfirst := h ⟨marks.pending, outcomes 0⟩ List.mem_cons_self
          rw [if_neg hsent]
          simp only [← Marks.pending_after hfirst] at h ⊢
          exact .retry (mt (Marks.failed_eq_zero_iff hfirst).mpr hsent)
            (ih fun call hcall => h call (List.mem_cons_of_mem _ hcall))

/-- The batch is sent exactly when some request within the retries completes it. Every request
is made with the records that were not accepted before, in their order, and those are what is
left when the retries are used up. -/
theorem retries_send_pending {outcomes : ℕ → Outcome} {max_retry_count : ℕ} {batch : Batch}
    {status_output : String}
    (h : ∀ call ∈ (sendErasing outcomes max_retry_count batch status_output).calls,
      call.outcome.Consistent call.batch) :
    ((sendErasing outcomes max_retry_count batch status_output).success = true ↔
      ∃ request < max_retry_count,
        ((Marks.fresh batch).run outcomes (request + 1)).Done) ∧
    (∀ request call,
      (sendErasing outcomes max_retry_count batch status_output).calls[request]? = some call →
        call.batch = ((Marks.fresh batch).run outcomes request).pending ∧
          call.outcome = outcomes request) ∧
    ((sendErasing outcomes max_retry_count batch status_output).success = false →
      (sendErasing outcomes max_retry_count batch status_output).batch =
        ((Marks.fresh batch).run outcomes max_retry_count).pending) ∧
    (sendErasing outcomes max_retry_count batch status_output).calls.length ≤ max_retry_count := by
  have heq := sendErasing_eq_sendBatch h
  rw [heq] at h ⊢
  have hmarks := @sendBatch_marks outcomes max_retry_count (Marks.fresh batch) status_output
  rw [Marks.pending_fresh] at hmarks
  obtain ⟨hsuccess, hcall, hleft, hlength⟩ := hmarks h
  exact ⟨hsuccess, hcall, hleft, hlength⟩

/-- One of three records fails, then the whole request, and then the record is accepted. -/
def threeOutcomes : ℕ → Outcome
  | 0 => .result 1 ["", "InternalFailure", ""]
  | 1 => .failure "timeout"
  | _ => .result 0 [""]

theorem threeOutcomes_sent :
    (∀ call ∈ (sendErasing threeOutcomes 5 [("1", "a"), ("2", "b"), ("3", "c")] "").calls,
      call.outcome.Consistent call.batch) ∧
    (sendErasing threeOutcomes 5 [("1", "a"), ("2", "b"), ("3", "c")] "").success = true := by
  have hconsistent : ∀ call ∈
      (sendErasing threeOutcomes 5 [("1", "a"), ("2", "b"), ("3", "c")] "").calls,
      call.outcome.Consistent call.batch := by
    decide
  refine ⟨hconsistent, (retries_send_pending hconsistent).1.mpr ⟨2, by decide, ?_⟩⟩
  simp [Marks.Done, Marks.fresh, Marks.run, Marks.after, Marks.mark, threeOutcomes]

end AwsLogForwarder

end Osquery.Logger
