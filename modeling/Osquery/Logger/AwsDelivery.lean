import Osquery.Logger.AwsForwarder

/-!
# What AWS accepted is not sent again

The buffered forwarder removes the lines of a call when all of it succeeded, and keeps all of
them when it did not. So a record that was accepted is not requested again as long as every
call either gets all of its batches accepted in the end or has nothing accepted at all. When
one batch fails for good, the accepted records of its call come back with the next round.

## Implementation notes

A record is identified with the index of its line. The forwarder is alone in the logs domain,
and the lines of a run are those of one process.
-/

namespace Osquery.Logger

open Foundation.Custody

namespace AwsLogForwarder

variable (f : AwsLogForwarder)

/-- A send, if the action is one, leaves nothing half done. -/
def Meets (s : AwsState) : Action → Prop
  | .check outcomes _ =>
      match s.phase with
      | .sendingResults _ results _ => f.Clean outcomes results "result"
      | .sendingStatuses _ statuses => f.Clean outcomes statuses "status"
      | _ => True
  | _ => True

def MeetsAll (s : AwsState) : List Action → Prop
  | [] => True
  | action :: actions => f.Meets s action ∧ MeetsAll (f.step s action) actions

end AwsLogForwarder

/-! ### Lines that left stay gone -/

theorem deleteAll_sent (keys : List String) (s : State) :
    (keys.foldl (fun s key => deleteValueWithCount key s) s).sent = s.sent := by
  induction keys generalizing s with
  | nil => rfl
  | cons key rest ih => exact ih (deleteValueWithCount key s)

theorem purge_sent (f : Forwarder) (buffered_log_max : ℕ) (s : State) :
    (f.purge buffered_log_max s).sent = s.sent := by
  simp only [Forwarder.purge]
  split
  · rfl
  · split
    · rfl
    · exact deleteAll_sent _ _

theorem sent_proceed (f : Forwarder) (sent : Bool) (buffered_log_max : ℕ) (s : State) :
    ∃ more, (f.proceed sent buffered_log_max s).sent = s.sent ++ more := by
  rcases f.proceed_cases sent buffered_log_max s with
    ⟨phase, more, hstep⟩ | ⟨phase, key, -, hstep⟩ | ⟨-, hstep⟩
  · exact ⟨more, by rw [hstep]⟩
  · exact ⟨[], by rw [hstep, List.append_nil]; rfl⟩
  · exact ⟨[], by rw [hstep, purge_sent, List.append_nil]⟩

/-- A step of `check` sends the lines of its phase or nothing. -/
theorem sent_advance (f : Forwarder) (sent : Bool) (buffered_log_max : ℕ) (s : State) :
    ∃ more, (f.advance sent buffered_log_max s).sent = s.sent ++ more := by
  rw [Forwarder.advance]
  split
  · exact ⟨[], (List.append_nil _).symm⟩
  · exact sent_proceed f sent buffered_log_max s

theorem sent_countValue (key : String) (s : State) : (countValue key s).sent = s.sent ++ [] := by
  rw [countValue, List.append_nil]
  split <;> rfl

theorem mem_sent_of_append {b b' : Buffer} {more : List (List Line)} (h : b'.sent = b.sent ++ more)
    {key : String} (hkey : key ∈ b.ledger.sent) : key ∈ b'.ledger.sent := by
  obtain ⟨line, hline, heq⟩ := List.mem_map.mp hkey
  apply List.mem_map.mpr
  refine ⟨line, ?_, heq⟩
  rw [h, List.flatten_append]
  exact List.mem_append_left _ hline

/-! ### Every step -/

/-- What was accepted has left, and no request has what an earlier one got accepted. -/
structure Delivered (f : AwsLogForwarder) (s : AwsState) : Prop where
  kept : Kept f.toForwarder s.toState
  accepted : ∀ call ∈ s.calls, ∀ r ∈ call.accepted, r.1 ∈ s.ledger.sent
  apart : s.calls.Pairwise Call.Apart

namespace Delivered

variable {f : AwsLogForwarder} {s : AwsState}

/-- A step that makes no request. -/
theorem quiet (h : Delivered f s) {s' : State} (hkept : Kept f.toForwarder s')
    {more : List (List Line)} (hsent : s'.sent = s.sent ++ more) :
    Delivered f { s with toState := s' } :=
  ⟨hkept, fun call hcall r hr => mem_sent_of_append hsent (h.accepted call hcall r hr), h.apart⟩

/-- The requests for lines that are held come after those that were accepted before. -/
theorem sendLines (h : Delivered f s) {outcomes : ℕ → ℕ → Outcome} {lines : List Line}
    {log_type : String} (hclean : f.Clean outcomes lines log_type)
    (hnodup : (lines.map (·.1)).Nodup) (hheld : ∀ key ∈ lines.map (·.1), s.ledger.Held key)
    (hsent : lines ≠ [] → (f.advance true 0 s.toState).sent = s.sent ++ [lines]) :
    Delivered f (f.sendLines outcomes lines log_type s) := by
  rw [AwsLogForwarder.sendLines]
  split
  · obtain ⟨more, hmore⟩ := sent_advance f.toForwarder false 0 s.toState
    exact h.quiet (h.kept.advance false 0) hmore
  · next hlines =>
      obtain ⟨hmem, hapart⟩ := f.send_calls outcomes log_type hnodup
      obtain ⟨more, hmore⟩ := sent_advance f.toForwarder
        (f.send outcomes lines log_type).1.ok 0 s.toState
      refine ⟨h.kept.advance _ 0, ?_, ?_⟩
      · intro call hcall r hr
        rcases List.mem_append.mp hcall with hcall | hcall
        · exact mem_sent_of_append hmore (h.accepted call hcall r hr)
        · have hsub := (call.outcome.accepted_sublist call.batch).subset hr
          rcases hclean.send with hok | hnone
          · obtain ⟨line, hline, heq⟩ := List.mem_map.mp (hmem call hcall r hsub)
            apply List.mem_map.mpr
            refine ⟨line, ?_, heq⟩
            simp only [hok, hsent hlines, List.flatten_append, List.flatten_singleton]
            exact List.mem_append_right _ hline
          · rw [hnone call hcall] at hr
            exact absurd hr List.not_mem_nil
      · apply List.pairwise_append.mpr
        refine ⟨h.apart, hapart, ?_⟩
        intro call hcall call' hcall' r hr r' hr' heq
        obtain ⟨-, hgone⟩ := hheld r'.1 (hmem call' hcall' r' hr')
        apply hgone
        rw [← heq]
        exact Ledger.mem_gone.mpr (.inl (h.accepted call hcall r hr))

theorem advanceSending (h : Delivered f s) {outcomes : ℕ → ℕ → Outcome} {buffered_log_max : ℕ}
    (hmeets : f.Meets s (.check outcomes buffered_log_max)) :
    Delivered f (f.advanceSending outcomes buffered_log_max s) := by
  have hknows := h.kept.knows
  rw [AwsLogForwarder.Meets] at hmeets
  rw [AwsLogForwarder.advanceSending]
  obtain ⟨more, hmore⟩ := sent_advance f.toForwarder false buffered_log_max s.toState
  have hquiet := h.quiet (h.kept.advance false buffered_log_max) hmore
  split
  · exact hquiet
  rename_i hcounted
  cases hphase : s.phase with
  | sendingResults indexes results statuses =>
      rw [hphase] at hmeets hknows
      obtain ⟨-, hresults, -⟩ := hknows
      have hkeys : results.map (·.1) = indexes.filter f.isResultIndex := hresults.keys
      apply h.sendLines hmeets (hkeys ▸ hresults.nodup) (hkeys ▸ hresults.held)
      intro hne
      simp [Forwarder.advance, Forwarder.proceed, hcounted, hphase, hne]
  | sendingStatuses indexes statuses =>
      rw [hphase] at hmeets hknows
      obtain ⟨-, hstatuses⟩ := hknows
      have hkeys : statuses.map (·.1) = indexes.filter fun index => !f.isResultIndex index :=
        hstatuses.keys
      apply h.sendLines hmeets (hkeys ▸ hstatuses.nodup) (hkeys ▸ hstatuses.held)
      intro hne
      simp [Forwarder.advance, Forwarder.proceed, hcounted, hphase, hne]
  | idle => exact hquiet
  | reading indexes todo lines => exact hquiet
  | clearingResults indexes todo statuses => exact hquiet
  | clearingStatuses todo => exact hquiet
  | purging => exact hquiet

theorem step (h : Delivered f s) {action : AwsLogForwarder.Action} (hmeets : f.Meets s action) :
    Delivered f (f.step s action) := by
  cases action with
  | setUp => exact h.quiet h.kept.setUp (List.append_nil _).symm
  | store results text time now =>
      exact h.quiet (h.kept.storeLine results text time now) (List.append_nil _).symm
  | count key => exact h.quiet (h.kept.count key) (sent_countValue key s.toState)
  | check outcomes buffered_log_max => exact h.advanceSending hmeets

theorem run (h : Delivered f s) {actions : List AwsLogForwarder.Action}
    (hmeets : f.MeetsAll s actions) : Delivered f (f.run actions s) := by
  induction actions generalizing s with
  | nil => exact h
  | cons action actions ih =>
      obtain ⟨hmeets, hrest⟩ := hmeets
      exact ih (h.step hmeets) hrest

end Delivered

/-- From a forwarder that was just constructed, through sends that leave nothing half done: no
request has a record that an earlier one got accepted. -/
theorem accepted_once (f : AwsLogForwarder) {s : State} (hfresh : Fresh s)
    {actions : List AwsLogForwarder.Action} (hmeets : f.MeetsAll ⟨s, []⟩ actions) :
    (f.run actions ⟨s, []⟩).calls.Pairwise Call.Apart := by
  have hstart : Delivered f ⟨s, []⟩ :=
    ⟨hfresh.kept f.toForwarder, fun call hcall => absurd hcall List.not_mem_nil,
      List.Pairwise.nil⟩
  exact (hstart.run hmeets).apart

theorem meetsAll_of_forall (f : AwsLogForwarder) {actions : List AwsLogForwarder.Action}
    (h : ∀ action ∈ actions, ∀ s, f.Meets s action) (s : AwsState) : f.MeetsAll s actions := by
  induction actions generalizing s with
  | nil => trivial
  | cons action actions ih =>
      exact ⟨h action (List.mem_cons_self ..) s,
        ih (fun action' h' => h action' (List.mem_cons_of_mem _ h')) _⟩

theorem meets_of_complete {f : AwsLogForwarder} (h : 0 < f.getMaxRetryCount) {outcome : Outcome}
    (hcomplete : outcome.complete) (buffered_log_max : ℕ) (s : AwsState) :
    f.Meets s (.check (fun _ _ => outcome) buffered_log_max) := by
  have hclean (lines : List Line) (log_type : String) :
      f.Clean (fun _ _ => outcome) lines log_type := .inl fun _ _ => ⟨0, h, hcomplete⟩
  rw [AwsLogForwarder.Meets]
  split
  · exact hclean _ _
  · exact hclean _ _
  · trivial

/-! ### A record that stays behind -/

instance : DecidableRel Call.Apart := fun call call' =>
  inferInstanceAs (Decidable (∀ r ∈ call.accepted, ∀ r' ∈ call'.batch, r.1 ≠ r'.1))

instance (batch : Batch) : DecidablePred (Outcome.Consistent batch)
  | .failure _ => .isTrue trivial
  | .result failedRecordCount errorCodes =>
      inferInstanceAs (Decidable (errorCodes.length = batch.length ∧
        failedRecordCount = errorCodes.countP fun code => code != ""))

/-- The document of a line with the type of the log. -/
def withLogType (log_type log : String) : Option String :=
  some (String.ofList log.toList.dropLast ++ ",\"log_type\":\"" ++ log_type ++ "\"\x7d")

def dummyForwarder : AwsLogForwarder where
  index_name := "dummy"
  max_log_lines := 50
  appendLogTypeToJson := withLogType
  getMaxBytesPerRecord := 80
  getMaxRecordsPerBatch := 3
  getMaxBytesPerBatch := 128
  getMaxRetryCount := 1
  appendNewlineSeparators := true

/-- Two lines are logged, and two rounds get an outcome for each of their requests. -/
def twoRounds (outcome : Outcome) : List AwsLogForwarder.Action :=
  [.store true "\x7b\"batch1\":\"1\"\x7d" 0 1600000000, .count "dummy_r_1600000000_1",
    .store true "\x7b\"batch1\":\"2\"\x7d" 0 1600000000, .count "dummy_r_1600000000_2"] ++
  List.replicate 15 (.check (fun _ _ => outcome) 0)

theorem accepted_once_complete :
    (dummyForwarder.run (twoRounds (.result 0 ["", ""])) ⟨⟨Buffer.new, ∅⟩, []⟩).calls.Pairwise
      Call.Apart := by
  have hfresh : Fresh ⟨Buffer.new, ∅⟩ := ⟨rfl, Std.ExtTreeMap.getD_empty⟩
  apply accepted_once dummyForwarder hfresh
  apply meetsAll_of_forall
  intro action haction s
  rcases List.mem_append.mp haction with haction | haction
  · simp only [List.mem_cons, List.not_mem_nil, or_false] at haction
    rcases haction with rfl | rfl | rfl | rfl <;> trivial
  · rw [List.eq_of_mem_replicate haction]
    have hcomplete : (Outcome.result 0 ["", ""]).complete := rfl
    exact meets_of_complete (by decide) hcomplete 0 s

/-- The second record of a batch fails, and the next round sends the first one again. -/
theorem accepted_resent :
    (∀ call ∈ (dummyForwarder.run (twoRounds (.result 1 ["", "InternalFailure"]))
      ⟨⟨Buffer.new, ∅⟩, []⟩).calls, call.outcome.Consistent call.batch) ∧
    ¬ (dummyForwarder.run (twoRounds (.result 1 ["", "InternalFailure"]))
      ⟨⟨Buffer.new, ∅⟩, []⟩).calls.Pairwise Call.Apart := by
  decide +kernel

end Osquery.Logger
