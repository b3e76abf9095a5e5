import Osquery.EventPublishers.SyslogCsv
import Osquery.Foundation.Streaks

/-!
# The runs of the syslog publisher

The publisher reads the lines that rsyslog writes into a pipe, in runs of a bounded number of
lines. A line that parses is fired as an event and takes one from the count of errors, and any
other line adds one. At the threshold the publisher ends. This happens exactly when some stretch
of the lines that were read, however long, has so many more malformed lines than other ones.

## Implementation notes

A step is the arrival of a line, the beginning of a run or a pass of its loop. A line is in the
pipe once all of it is.
-/

namespace Osquery.EventPublishers.SyslogIngestion

open Core.Rows SyslogCsv Foundation.Streaks

def kErrorThreshold : ℕ := 10

inductive Phase
  | paused
  /-- So many passes were made. -/
  | running (i : ℕ)
  | ended
  deriving DecidableEq

structure State where
  /-- The lines in the pipe. -/
  readStream_ : List String := []
  errorCount_ : ℕ := 0
  fired : List Row := []
  phase : Phase := .paused

inductive Action
  | write (line : String)
  | run
  | pass

/-- The event of a line. -/
def event (line : String) : Option Row := (populateEventContext line ∅).toOption

def malformed (line : String) : Bool := (event line).isNone

/-- What is done with a line; the count of errors stays at zero. -/
def State.ingest (s : State) (line : String) (i : ℕ) : State :=
  match event line with
  | some fields =>
      { s with
        fired := s.fired ++ [fields]
        errorCount_ := s.errorCount_ - 1
        phase := .running (i + 1) }
  | none =>
      { s with
        errorCount_ := s.errorCount_ + 1
        phase := if kErrorThreshold ≤ s.errorCount_ + 1 then .ended else .running (i + 1) }

def State.run (s : State) : State :=
  if s.phase = .paused then { s with phase := .running 0 } else s

def State.pass (syslog_rate_limit : ℕ) (s : State) : State :=
  match s.phase with
  | .running i =>
      if i < syslog_rate_limit then
        match s.readStream_ with
        | [] => { s with phase := .paused }
        | line :: lines => { s with readStream_ := lines }.ingest line i
      else { s with phase := .paused }
  | _ => s

def step (syslog_rate_limit : ℕ) (s : State) : Action → State
  | .write line => { s with readStream_ := s.readStream_ ++ [line] }
  | .run => s.run
  | .pass => s.pass syslog_rate_limit

def Action.written : Action → Option String
  | .write line => some line
  | _ => none

/-- What became of the lines that were written. -/
structure Ingested (written read : List String) (s : State) : Prop where
  lines : read ++ s.readStream_ = written
  fired : s.fired = read.filterMap event
  errors : s.errorCount_ = excess malformed read
  ended : s.phase = .ended ↔
    ∃ earlier, earlier <+: read ∧ kErrorThreshold ≤ excess malformed earlier

variable {syslog_rate_limit : ℕ} {written read : List String} {s : State}

theorem ingested_initial : Ingested [] [] {} where
  lines := rfl
  fired := rfl
  errors := rfl
  ended := by
    refine iff_of_false nofun ?_
    rintro ⟨earlier, hearlier, hexcess⟩
    rw [List.prefix_nil.mp hearlier] at hexcess
    exact absurd hexcess (by decide)

/-- A publisher that has not ended may go on with another run or pause. -/
theorem Ingested.phase (h : Ingested written read s) (hphase : s.phase ≠ .ended) {phase : Phase}
    (hnext : phase ≠ .ended) : Ingested written read { s with phase } where
  lines := h.lines
  fired := h.fired
  errors := h.errors
  ended := iff_of_false hnext (h.ended.not.mp hphase)

theorem Ingested.write (h : Ingested written read s) (line : String) :
    Ingested (written ++ [line]) read { s with readStream_ := s.readStream_ ++ [line] } where
  lines := by rw [← h.lines, List.append_assoc]
  fired := h.fired
  errors := h.errors
  ended := h.ended

/-- With a new line the only new history is the whole one. -/
theorem exists_excess_concat {line : String} {k : ℕ}
    (hnone : ¬∃ earlier, earlier <+: read ∧ k ≤ excess malformed earlier) :
    (∃ earlier, earlier <+: read ++ [line] ∧ k ≤ excess malformed earlier) ↔
      k ≤ excess malformed (read ++ [line]) := by
  constructor
  · rintro ⟨earlier, hearlier, hexcess⟩
    obtain rfl | hread := List.prefix_concat_iff.mp hearlier
    · exact hexcess
    · exact absurd ⟨earlier, hread, hexcess⟩ hnone
  · intro hexcess
    exact ⟨read ++ [line], List.prefix_refl _, hexcess⟩

theorem Ingested.ingest (h : Ingested written read s) (hphase : s.phase ≠ .ended) {line : String}
    {lines : List String} (hline : s.readStream_ = line :: lines) (i : ℕ) :
    Ingested written (read ++ [line]) ({ s with readStream_ := lines }.ingest line i) := by
  have hnone := h.ended.not.mp hphase
  have hlines : read ++ [line] ++ lines = written := by
    rw [List.append_assoc, List.singleton_append, ← hline, h.lines]
  have hexcess := excess_concat malformed read line
  unfold State.ingest
  cases hevent : event line with
  | some fields =>
      have hmalformed : malformed line = false := by rw [malformed, hevent]; rfl
      rw [hmalformed, if_neg Bool.false_ne_true, ← h.errors] at hexcess
      constructor
      · exact hlines
      · change s.fired ++ [fields] = _
        rw [List.filterMap_append, h.fired, List.filterMap_cons_some hevent, List.filterMap_nil]
      · exact hexcess.symm
      · refine iff_of_false nofun ?_
        rw [exists_excess_concat hnone, hexcess, not_le]
        have hlt : s.errorCount_ < kErrorThreshold := by
          by_contra hle
          exact hnone ⟨read, List.prefix_refl read, h.errors ▸ not_lt.mp hle⟩
        exact (Nat.sub_le _ 1).trans_lt hlt
  | none =>
      have hmalformed : malformed line = true := by rw [malformed, hevent]; rfl
      rw [hmalformed, if_pos rfl, ← h.errors] at hexcess
      constructor
      · exact hlines
      · change s.fired = _
        rw [List.filterMap_append, h.fired, List.filterMap_cons_none hevent, List.filterMap_nil,
          List.append_nil]
      · exact hexcess.symm
      · rw [exists_excess_concat hnone, hexcess]
        change (if kErrorThreshold ≤ s.errorCount_ + 1 then Phase.ended else .running (i + 1)) =
          .ended ↔ _
        split
        · next hle => exact iff_of_true rfl hle
        · next hlt => exact iff_of_false nofun hlt

theorem Ingested.pass (h : Ingested written read s) :
    ∃ read', Ingested written read' (s.pass syslog_rate_limit) := by
  unfold State.pass
  split
  · next i hrunning =>
      have hphase : s.phase ≠ .ended := by
        rw [hrunning]
        nofun
      split
      · split
        · exact ⟨read, h.phase hphase nofun⟩
        · next line lines hline => exact ⟨read ++ [line], h.ingest hphase hline i⟩
      · exact ⟨read, h.phase hphase nofun⟩
  · exact ⟨read, h⟩

theorem Ingested.run (h : Ingested written read s) : Ingested written read s.run := by
  unfold State.run
  split
  · next hpaused =>
      have hphase : s.phase ≠ .ended := by
        rw [hpaused]
        nofun
      exact h.phase hphase nofun
  · exact h

theorem Ingested.step (h : Ingested written read s) (action : Action) :
    ∃ read', Ingested (written ++ action.written.toList) read'
      (step syslog_rate_limit s action) := by
  cases action with
  | write line => exact ⟨read, h.write line⟩
  | run =>
      change ∃ read', Ingested (written ++ []) read' s.run
      rw [List.append_nil]
      exact ⟨read, h.run⟩
  | pass =>
      change ∃ read', Ingested (written ++ []) read' (s.pass syslog_rate_limit)
      rw [List.append_nil]
      exact h.pass

theorem filterMap_written_cons (action : Action) (actions : List Action) :
    (action :: actions).filterMap Action.written =
      action.written.toList ++ actions.filterMap Action.written := by
  cases action with
  | write | run | pass => rfl

theorem Ingested.foldl (syslog_rate_limit : ℕ) (h : Ingested written read s)
    (actions : List Action) :
    ∃ read', Ingested (written ++ actions.filterMap Action.written) read'
      (actions.foldl (SyslogIngestion.step syslog_rate_limit) s) := by
  induction actions generalizing written read s with
  | nil => exact ⟨read, (List.append_nil written).symm ▸ h⟩
  | cons action actions ih =>
      obtain ⟨read', hstep⟩ := h.step action
      rw [filterMap_written_cons, ← List.append_assoc]
      exact ih hstep

/-- In every run, the lines are read in their order, those that parse are fired, and the publisher
has ended exactly if some stretch of the lines read has so many more malformed lines than others. -/
theorem ended_iff_surplus (syslog_rate_limit : ℕ) (actions : List Action) :
    ∃ read, read ++ (actions.foldl (step syslog_rate_limit) {}).readStream_ =
        actions.filterMap Action.written ∧
      (actions.foldl (step syslog_rate_limit) {}).fired = read.filterMap event ∧
      ((actions.foldl (step syslog_rate_limit) {}).phase = .ended ↔
        ∃ stretch, stretch <:+: read ∧ Surplus malformed kErrorThreshold stretch) := by
  obtain ⟨read, h⟩ := ingested_initial.foldl syslog_rate_limit actions
  exact ⟨read, h.lines, h.fired, h.ended.trans exists_surplus_iff.symm⟩

end Osquery.EventPublishers.SyslogIngestion
