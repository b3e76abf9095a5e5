import Mathlib.Algebra.BigOperators.Group.List.Basic
import Mathlib.Tactic.Ring
import Mathlib.Tactic.Linarith

/-!
# The scheduler loop and its drift

One pass of the loop launches the queries that are due at its second, does the
periodic work and then waits for what is left of the interval. A pass that takes
longer than the interval leaves a drift, which the following passes pay back by
waiting less. A drift above the maximum is given up.

## Implementation notes

Durations are whole milliseconds of any size, as the steady clock measures them;
they are arguments of the passes, as are the queries that the configuration visits and
the interruption that a pass finds at its end. A pause is what the loop asks
for: an interruption may end it early.
-/

namespace Osquery.Scheduler

/-! ### The loop -/

structure SchedulerRunner where
  interval_ : ℤ
  timeout_ : UInt64
  time_drift_ : ℤ := 0
  max_time_drift_ : ℤ

structure ReloadFlags where
  schedule_reload : UInt64 := 300
  schedule_reload_sql : Bool := false

/-- What a pass does besides waiting. A launched query comes with the interval and
the step that the table cache is told. -/
inductive Call
  | launchQuery (name : String) (kCacheInterval kCacheStep : UInt64)
  | runDecorators (time : UInt64)
  | resetPrimary
  | resetDatabase
  | relayStatusLogs
  deriving DecidableEq

/-- How a pass ends: with a pause, with a drift that it carries to the next pass, or with a
drift that is too large to be paid back. -/
inductive Ending
  | pause (milli : ℤ)
  | carry
  | giveUp
  deriving DecidableEq

/-- The time that a pass waits. -/
def Ending.paused : Ending → ℤ
  | pause milli => milli
  | _ => 0

def launchDue (i : UInt64) (query : String × UInt64) : List Call :=
  if query.2 > 0 ∧ i % query.2 = 0 then [.launchQuery query.1 query.2 i] else []

/-- The calls at the second `i`. -/
def passCalls (flags : ReloadFlags) (i : UInt64) (queries : List (String × UInt64)) : List Call :=
  queries.flatMap (launchDue i) ++
    (if i % 60 = 0 then [.runDecorators i] else []) ++
    (if flags.schedule_reload > 0 ∧ i % flags.schedule_reload = 0 then
      (if flags.schedule_reload_sql then [.resetPrimary] else []) ++ [.resetDatabase]
    else []) ++
    if i % 3 = 0 then [.relayStatusLogs] else []

/-- The end of a pass whose calls took `loop_step_duration`. -/
def SchedulerRunner.finish (runner : SchedulerRunner) (loop_step_duration : ℤ) :
    SchedulerRunner × Ending :=
  if loop_step_duration + runner.time_drift_ < runner.interval_ then
    ({ runner with time_drift_ := 0 },
      .pause (runner.interval_ - loop_step_duration - runner.time_drift_))
  else
    let time_drift_ := runner.time_drift_ + (loop_step_duration - runner.interval_)
    if time_drift_ > runner.max_time_drift_ then ({ runner with time_drift_ := 0 }, .giveUp)
    else ({ runner with time_drift_ := time_drift_ }, .carry)

/-- What a pass meets: the names and the splayed intervals of the queries that the
configuration visits, the time that the calls take, and whether it is interrupted. -/
structure Circumstances where
  queries : List (String × UInt64)
  loop_step_duration : ℤ
  interrupted : Bool

/-- A pass that was made, with the runner as it left it. -/
structure Pass where
  second : UInt64
  calls : List Call
  loop_step_duration : ℤ
  ending : Ending
  runner : SchedulerRunner

def SchedulerRunner.pass (flags : ReloadFlags) (runner : SchedulerRunner) (i : UInt64)
    (met : Circumstances) : Pass where
  second := i
  calls := passCalls flags i met.queries
  loop_step_duration := met.loop_step_duration
  ending := (runner.finish met.loop_step_duration).2
  runner := (runner.finish met.loop_step_duration).1

/-- The passes that the loop makes from the second `i` on. -/
def SchedulerRunner.start (flags : ReloadFlags) (runner : SchedulerRunner) (i : UInt64) :
    List Circumstances → List Pass
  | [] => []
  | met :: rest =>
      if runner.timeout_ = 0 ∨ i ≤ runner.timeout_ then
        let pass := runner.pass flags i met
        if met.interrupted then [pass] else pass :: pass.runner.start flags (i + 1) rest
      else []

def SchedulerRunner.getCurrentTimeDrift (runner : SchedulerRunner) : ℤ := runner.time_drift_

/-- The runner after some of its passes. -/
def SchedulerRunner.after (runner : SchedulerRunner) (passes : List Pass) : SchedulerRunner :=
  (passes.getLast?.map Pass.runner).getD runner

@[simp]
theorem SchedulerRunner.after_nil (runner : SchedulerRunner) : runner.after [] = runner := rfl

theorem SchedulerRunner.after_cons (runner : SchedulerRunner) (pass : Pass)
    (passes : List Pass) : runner.after (pass :: passes) = pass.runner.after passes := by
  cases passes with
  | nil => rfl
  | cons next passes => rw [after, after, List.getLast?_cons_cons, List.getLast?_cons]; rfl

/-! ### One pass -/

section Step

variable {runner : SchedulerRunner} {loop_step_duration : ℤ}

/-- The ways in which a pass can end, with the condition for each. -/
theorem SchedulerRunner.finish_cases (runner : SchedulerRunner) (loop_step_duration : ℤ) :
    (loop_step_duration + runner.time_drift_ < runner.interval_ ∧
      runner.finish loop_step_duration = ({ runner with time_drift_ := 0 },
        .pause (runner.interval_ - loop_step_duration - runner.time_drift_))) ∨
    (runner.interval_ ≤ loop_step_duration + runner.time_drift_ ∧
      runner.finish loop_step_duration = ({ runner with time_drift_ := 0 }, .giveUp)) ∨
    (runner.interval_ ≤ loop_step_duration + runner.time_drift_ ∧
      runner.time_drift_ + (loop_step_duration - runner.interval_) ≤ runner.max_time_drift_ ∧
      runner.finish loop_step_duration =
        ({ runner with
            time_drift_ := runner.time_drift_ + (loop_step_duration - runner.interval_) },
          .carry)) := by
  rw [finish]
  by_cases hshort : loop_step_duration + runner.time_drift_ < runner.interval_
  · exact Or.inl ⟨hshort, if_pos hshort⟩
  · have hlong := not_lt.mp hshort
    rw [if_neg hshort]
    by_cases hdrift : runner.time_drift_ + (loop_step_duration - runner.interval_) >
        runner.max_time_drift_
    · exact Or.inr (Or.inl ⟨hlong, if_pos hdrift⟩)
    · exact Or.inr (Or.inr ⟨hlong, not_lt.mp hdrift, if_neg hdrift⟩)

/-- The drift of a runner is admissible. -/
structure SchedulerRunner.WithinDrift (runner : SchedulerRunner) : Prop where
  max_nonneg : 0 ≤ runner.max_time_drift_
  nonneg : 0 ≤ runner.time_drift_
  le_max : runner.time_drift_ ≤ runner.max_time_drift_

/-- A pass keeps the drift admissible and the settings as they are. -/
theorem SchedulerRunner.WithinDrift.finish (h : runner.WithinDrift) (loop_step_duration : ℤ) :
    (runner.finish loop_step_duration).1.WithinDrift ∧
      (runner.finish loop_step_duration).1.interval_ = runner.interval_ ∧
      (runner.finish loop_step_duration).1.max_time_drift_ = runner.max_time_drift_ := by
  rcases runner.finish_cases loop_step_duration with ⟨-, heq⟩ | ⟨-, heq⟩ | ⟨hlong, hmax, heq⟩
  · rw [heq]
    exact ⟨⟨h.max_nonneg, le_refl 0, h.max_nonneg⟩, rfl, rfl⟩
  · rw [heq]
    exact ⟨⟨h.max_nonneg, le_refl 0, h.max_nonneg⟩, rfl, rfl⟩
  · rw [heq]
    exact ⟨⟨h.max_nonneg, by dsimp only; linarith, hmax⟩, rfl, rfl⟩

/-- A pause is what is left of the interval. -/
theorem SchedulerRunner.pause_pos {milli : ℤ}
    (h : (runner.finish loop_step_duration).2 = .pause milli) : 0 < milli := by
  rcases runner.finish_cases loop_step_duration with ⟨hshort, heq⟩ | ⟨-, heq⟩ | ⟨-, -, heq⟩
  · rw [heq] at h
    obtain rfl := Ending.pause.inj h
    linarith
  · rw [heq] at h
    cases h
  · rw [heq] at h
    cases h

/-- The time of a pass that does not give up is an interval and the change of the drift. -/
theorem SchedulerRunner.finish_balance
    (h : (runner.finish loop_step_duration).2 ≠ .giveUp) :
    loop_step_duration + (runner.finish loop_step_duration).2.paused =
      runner.interval_ + (runner.finish loop_step_duration).1.time_drift_ -
        runner.time_drift_ := by
  rcases runner.finish_cases loop_step_duration with ⟨-, heq⟩ | ⟨-, heq⟩ | ⟨-, -, heq⟩
  · rw [heq]
    dsimp only [Ending.paused]
    ring
  · rw [heq] at h
    exact absurd rfl h
  · rw [heq]
    dsimp only [Ending.paused]
    ring

end Step

/-! ### Whole runs -/

/-- The time that passes take: their calls and their pauses. -/
def elapsed (passes : List Pass) : ℤ :=
  (passes.map fun pass => pass.loop_step_duration + pass.ending.paused).sum

/-- Each pass of a list was made by the runner that the one before it left. -/
def Consecutive (runner : SchedulerRunner) : List Pass → Prop
  | [] => True
  | pass :: passes =>
      pass.runner = (runner.finish pass.loop_step_duration).1 ∧
        pass.ending = (runner.finish pass.loop_step_duration).2 ∧ Consecutive pass.runner passes

theorem consecutive_start (flags : ReloadFlags) (runner : SchedulerRunner) (i : UInt64)
    (met : List Circumstances) : Consecutive runner (runner.start flags i met) := by
  induction met generalizing runner i with
  | nil => trivial
  | cons now rest ih =>
      rw [SchedulerRunner.start]
      split
      · dsimp only
        split
        · exact ⟨rfl, rfl, trivial⟩
        · exact ⟨rfl, rfl, ih _ _⟩
      · trivial

theorem consecutive_append {runner : SchedulerRunner} {passes more : List Pass} :
    Consecutive runner (passes ++ more) ↔
      Consecutive runner passes ∧ Consecutive (runner.after passes) more := by
  induction passes generalizing runner with
  | nil => exact (and_iff_right trivial).symm
  | cons pass passes ih =>
      rw [List.cons_append, Consecutive, Consecutive, ih, runner.after_cons, and_assoc,
        and_assoc]

/-- What holds after every pass of a run. -/
theorem Consecutive.withinDrift {runner : SchedulerRunner} {passes : List Pass}
    (h : Consecutive runner passes) (hrunner : runner.WithinDrift) :
    ∀ pass ∈ passes, pass.runner.WithinDrift ∧
      pass.runner.interval_ = runner.interval_ ∧
      pass.runner.max_time_drift_ = runner.max_time_drift_ ∧
      ∀ milli, pass.ending = .pause milli → 0 < milli := by
  induction passes generalizing runner with
  | nil => exact List.forall_mem_nil _
  | cons pass passes ih =>
      obtain ⟨hrunner', hending, hrest⟩ := h
      have hkept := hrunner.finish pass.loop_step_duration
      rw [← hrunner'] at hkept
      obtain ⟨hwithin, hinterval, hmax⟩ := hkept
      rw [List.forall_mem_cons]
      constructor
      · refine ⟨hwithin, hinterval, hmax, fun milli hmilli => ?_⟩
        exact SchedulerRunner.pause_pos (hending ▸ hmilli)
      · intro other hother
        obtain ⟨hother, hinterval', hmax', hpause⟩ := ih hrest hwithin other hother
        exact ⟨hother, hinterval'.trans hinterval, hmax'.trans hmax, hpause⟩

/-- Passes that do not give up take an interval each and the change of the drift. -/
theorem Consecutive.elapsed {runner : SchedulerRunner} {passes : List Pass}
    (h : Consecutive runner passes) (hrunner : runner.WithinDrift)
    (hkept : ∀ pass ∈ passes, pass.ending ≠ .giveUp) :
    elapsed passes = passes.length * runner.interval_ +
      (runner.after passes).time_drift_ - runner.time_drift_ := by
  induction passes generalizing runner with
  | nil => simp [Scheduler.elapsed]
  | cons pass passes ih =>
      obtain ⟨hrunner', hending, hrest⟩ := h
      obtain ⟨hhead, htail⟩ := List.forall_mem_cons.mp hkept
      have hwithin := hrunner.finish pass.loop_step_duration
      rw [← hrunner'] at hwithin
      have hbalance := SchedulerRunner.finish_balance (hending ▸ hhead)
      rw [← hrunner', ← hending] at hbalance
      have hsum := ih hrest hwithin.1 htail
      rw [hwithin.2.1] at hsum
      have hsplit : Scheduler.elapsed (pass :: passes) =
          pass.loop_step_duration + pass.ending.paused + Scheduler.elapsed passes := by
        rw [Scheduler.elapsed, List.map_cons, List.sum_cons, Scheduler.elapsed]
      rw [hsplit, hsum, hbalance, runner.after_cons, List.length_cons]
      push_cast
      ring

theorem Consecutive.start_withinDrift {runner : SchedulerRunner} {before after : List Pass}
    (h : Consecutive runner (before ++ after)) (hrunner : runner.WithinDrift) :
    (runner.after before).WithinDrift ∧ (runner.after before).interval_ = runner.interval_ := by
  have hbefore := (consecutive_append.mp h).1.withinDrift hrunner
  rw [SchedulerRunner.after]
  cases hlast : before.getLast? with
  | none => exact ⟨hrunner, rfl⟩
  | some pass =>
      obtain ⟨hwithin, hinterval, -, -⟩ := hbefore pass (List.mem_of_getLast? hlast)
      exact ⟨hwithin, hinterval⟩

theorem SchedulerRunner.after_append (runner : SchedulerRunner) (passes more : List Pass) :
    runner.after (passes ++ more) = (runner.after passes).after more := by
  induction passes generalizing runner with
  | nil => rfl
  | cons pass passes ih => rw [List.cons_append, after_cons, after_cons, ih]

/-- The loop keeps its drift between zero and the maximum and never asks for a negative pause.
Over any part of a run in which no pass gives up, the durations and the pauses add up to an
interval for each pass and the change of the drift. -/
theorem drift_accounting (flags : ReloadFlags) (interval max_time_drift : ℤ)
    (timeout i : UInt64) (met : List Circumstances) (hmax : 0 ≤ max_time_drift) :
    let runner : SchedulerRunner :=
      { interval_ := interval, timeout_ := timeout, max_time_drift_ := max_time_drift }
    let passes := runner.start flags i met
    (∀ pass ∈ passes, 0 ≤ pass.runner.getCurrentTimeDrift ∧
      pass.runner.getCurrentTimeDrift ≤ max_time_drift ∧
      ∀ milli, pass.ending = .pause milli → 0 ≤ milli) ∧
    ∀ before loops later, passes = before ++ loops ++ later →
      (∀ pass ∈ loops, pass.ending ≠ .giveUp) →
      elapsed loops = loops.length * interval +
        (runner.after (before ++ loops)).getCurrentTimeDrift -
        (runner.after before).getCurrentTimeDrift := by
  intro runner passes
  have hrun : Consecutive runner passes := consecutive_start flags runner i met
  have hrunner : runner.WithinDrift := ⟨hmax, le_refl 0, hmax⟩
  constructor
  · intro pass hpass
    obtain ⟨hwithin, -, hmax', hpause⟩ := hrun.withinDrift hrunner pass hpass
    exact ⟨hwithin.nonneg, hwithin.le_max.trans hmax'.le, fun milli h => (hpause milli h).le⟩
  · intro before loops later hsplit hkept
    rw [hsplit, List.append_assoc] at hrun
    obtain ⟨hwithin, hinterval⟩ := hrun.start_withinDrift hrunner
    have hloops := (consecutive_append.mp (consecutive_append.mp hrun).2).1
    rw [hloops.elapsed hwithin hkept, hinterval, runner.after_append]
    rfl

/-- A pass of a second and a half, one that pays it back and one that is interrupted. -/
def threePasses : List Circumstances :=
  [{ queries := [("users", 2)], loop_step_duration := 1500, interrupted := false },
    { queries := [("users", 2)], loop_step_duration := 200, interrupted := false },
    { queries := [], loop_step_duration := 10, interrupted := true }]

theorem drift_accounting_threePasses :
    let runner : SchedulerRunner :=
      { interval_ := 1000, timeout_ := 0, max_time_drift_ := 60000 }
    let passes := runner.start {} 60 threePasses
    passes.map Pass.ending = [.carry, .pause 300, .pause 990] ∧
    (∀ pass ∈ passes, 0 ≤ pass.runner.getCurrentTimeDrift ∧
      pass.runner.getCurrentTimeDrift ≤ 60000 ∧
      ∀ milli, pass.ending = .pause milli → 0 ≤ milli) ∧
    ∀ before loops later, passes = before ++ loops ++ later →
      (∀ pass ∈ loops, pass.ending ≠ .giveUp) →
      elapsed loops = loops.length * 1000 +
        (runner.after (before ++ loops)).getCurrentTimeDrift -
        (runner.after before).getCurrentTimeDrift :=
  ⟨by decide, drift_accounting {} 1000 60000 0 60 threePasses (by decide)⟩

end Osquery.Scheduler
