import Osquery.Core.Rows
import Osquery.Foundation.Streaks
import Osquery.Foundation.Transducers

/-!
# The performance limits of the watchdog

The watchdog samples the row of a child from the processes table, compares the CPU time with
that of the sample before, and counts the consecutive samples over the limit. The memory
footprint is compared with the first one read. The counting is right exactly when no
difference of CPU times leaves the range of the unsigned counters with the wrong outcome, and
no sample over the limit that misses a column follows another one over the limit.

## Implementation notes

`size_t` is a 64-bit word, except that the number of samples in a streak is a natural number.
A `PerformanceChange` that is not filled keeps whatever its memory held: each sample
carries these values as `unset`.
-/

namespace Osquery.Watchdog.Performance

open Core.Rows Foundation.Numeral Foundation.Streaks Foundation.Transducers

/-! ### Limits -/

inductive WatchdogLimitType
  | memoryLimit
  | utilizationLimit
  | respawnLimit
  | respawnDelay
  | latencyLimit
  | interval
  deriving DecidableEq, Repr

structure LimitDefinition where
  normal : UInt64
  restrictive : UInt64
  disabled : UInt64

def kWatchdogLimits : WatchdogLimitType → LimitDefinition
  | .memoryLimit => ⟨200, 100, 10000⟩
  | .utilizationLimit => ⟨10, 5, 100⟩
  | .respawnLimit => ⟨4, 4, 1000⟩
  | .respawnDelay => ⟨5, 5, 1⟩
  | .latencyLimit => ⟨12, 6, 1000⟩
  | .interval => ⟨3, 3, 3⟩

/-- The flags of the watchdog, and the number of cores the machine reports. -/
structure Flags where
  watchdog_level : Int32
  watchdog_memory_limit : UInt64
  watchdog_utilization_limit : UInt64
  kNumOfCPUs : UInt32

def getWorkerLimit (flags : Flags) (name : WatchdogLimitType) : UInt64 :=
  if name = .memoryLimit ∧ flags.watchdog_memory_limit > 0 then flags.watchdog_memory_limit
  else if name = .utilizationLimit ∧ flags.watchdog_utilization_limit > 0 then
    flags.watchdog_utilization_limit
  else if flags.watchdog_level = -1 then (kWatchdogLimits name).disabled
  else if flags.watchdog_level = 1 then (kWatchdogLimits name).restrictive
  else (kWatchdogLimits name).normal

/-! ### Samples -/

structure PerformanceState where
  sustained_latency : ℕ
  user_time : UInt64
  system_time : UInt64
  last_respawn_time : UInt64
  initial_footprint : UInt64
  deriving DecidableEq

def PerformanceState.new : PerformanceState := ⟨0, 0, 0, 0, 0⟩

/-- What `resetWorkerCounters` and `resetExtensionCounters` do to a state. -/
def PerformanceState.resetCounters (state : PerformanceState) (respawn_time : UInt64) :
    PerformanceState :=
  { state with
    sustained_latency := 0, user_time := 0, system_time := 0, last_respawn_time := respawn_time }

def PerformanceState.withBaseline (state : PerformanceState) (baseline : UInt64) :
    PerformanceState :=
  { state with initial_footprint := baseline }

structure PerformanceChange where
  sustained_latency : ℕ
  footprint : UInt64
  iv : UInt64
  parent : Int32
  deriving DecidableEq

/-- A row of the processes table, and what an unfilled change holds while it is judged. -/
structure Sample where
  row : Row
  unset : PerformanceChange

/-- `tryTo<long long>(r.at(column)).takeOr(0LL)`; nothing where `at` throws. -/
def counter (r : Row) (column : String) : Option ℤ :=
  r[column]?.map fun text => (stoll text).toOption.getD 0

/-- What the `try` block has assigned when it ends. -/
structure Reading where
  parent : Option Int32 := none
  user_time : ℤ := 0
  system_time : ℤ := 0
  footprint : Option UInt64 := none
  thrown : Bool

def readCounters (r : Row) : Reading :=
  match counter r "parent" with
  | none => { thrown := true }
  | some parent =>
      match counter r "user_time" with
      | none => { parent := some (Int32.ofInt parent), thrown := true }
      | some user_time =>
          match counter r "system_time" with
          | none => { parent := some (Int32.ofInt parent), user_time, thrown := true }
          | some system_time =>
              match counter r "resident_size" with
              | none =>
                  { parent := some (Int32.ofInt parent), user_time, system_time, thrown := true }
              | some footprint =>
                  { parent := some (Int32.ofInt parent), user_time, system_time,
                    footprint := some (UInt64.ofInt footprint), thrown := false }

/-- `change.iv`. -/
def checkInterval (flags : Flags) : UInt64 := max (getWorkerLimit flags .interval) 1

/-- `cpu_ul`, in milliseconds. -/
def cpuLimit (flags : Flags) : UInt64 :=
  let percent_ul := getWorkerLimit flags .utilizationLimit
  let percent_ul := if percent_ul > 100 then 100 else percent_ul
  percent_ul * (checkInterval flags * 1000) * flags.kNumOfCPUs.toUInt64 / 100

/-- The resident bytes allocated since the initial footprint. -/
def postLaunch (footprint initial_footprint : UInt64) : UInt64 :=
  if footprint < initial_footprint then 0 else footprint - initial_footprint

def getChange (flags : Flags) (state : PerformanceState) (sample : Sample) :
    PerformanceState × PerformanceChange :=
  let read := readCounters sample.row
  let parent := read.parent.getD sample.unset.parent
  let footprint := read.footprint.getD sample.unset.footprint
  -- A row without one of the columns ends the streak before the times are compared.
  let sustained_latency := if read.thrown then 0 else state.sustained_latency
  let user_time := UInt64.ofInt read.user_time
  let system_time := UInt64.ofInt read.system_time
  let user_time_diff := user_time - state.user_time
  let sys_time_diff := system_time - state.system_time
  let cpu_utilization_time := user_time_diff + sys_time_diff
  let sustained_latency :=
    if cpu_utilization_time > cpuLimit flags then sustained_latency + 1 else 0
  let initial_footprint :=
    if state.initial_footprint = 0 then footprint else state.initial_footprint
  ({ state with sustained_latency, user_time, system_time, initial_footprint },
    { sustained_latency, footprint := postLaunch footprint initial_footprint,
      iv := checkInterval flags, parent })

def memoryLimitBytes (flags : Flags) : UInt64 := getWorkerLimit flags .memoryLimit * 1024 * 1024

def exceededMemoryLimit (flags : Flags) (change : PerformanceChange) : Bool :=
  if change.footprint = 0 then false else change.footprint > memoryLimitBytes flags

def exceededCyclesLimit (flags : Flags) (change : PerformanceChange) : Bool :=
  if change.sustained_latency = 0 then false
  else change.sustained_latency * change.iv.toNat ≥ (getWorkerLimit flags .latencyLimit).toNat

/-! ### The CPU time used since the sample before -/

/-- The CPU time a row is read to report. -/
def cpuTime (r : Row) : ℤ := (readCounters r).user_time + (readCounters r).system_time

def cpuTimeBefore (before : List Sample) : ℤ := (before.getLast?.map (cpuTime ·.row)).getD 0

def cpuTimeUsed (before : List Sample) (sample : Sample) : ℤ :=
  cpuTime sample.row - cpuTimeBefore before

/-- The limit for the interval, computed with unbounded numbers. -/
def exactCpuLimit (flags : Flags) : ℕ :=
  min (getWorkerLimit flags .utilizationLimit).toNat 100 * (checkInterval flags).toNat * 1000 *
    flags.kNumOfCPUs.toNat / 100

def OverLimit (flags : Flags) (before : List Sample) (sample : Sample) : Prop :=
  exactCpuLimit flags < cpuTimeUsed before sample

instance (flags : Flags) (before : List Sample) (sample : Sample) :
    Decidable (OverLimit flags before sample) :=
  inferInstanceAs (Decidable ((exactCpuLimit flags : ℤ) < cpuTimeUsed before sample))

theorem cpuTimeBefore_concat (before : List Sample) (sample : Sample) :
    cpuTimeBefore (before ++ [sample]) = cpuTime sample.row := by
  rw [cpuTimeBefore, List.getLast?_concat]
  rfl

theorem checkInterval_eq (flags : Flags) : checkInterval flags = 3 := by
  have h : getWorkerLimit flags .interval = 3 := by
    simp [getWorkerLimit, kWatchdogLimits]
  rw [checkInterval, h]
  rfl

/-- A capped share of the time of all cores stays in a word. -/
theorem toNat_share {percent cores : ℕ} (hpercent : percent ≤ 100) (hcores : cores < 2 ^ 32) :
    percent * (3 * 1000 % 2 ^ 64) % 2 ^ 64 * cores % 2 ^ 64 / 100 =
      percent * 3 * 1000 * cores / 100 := by
  have hiv : percent * (3 * 1000 % 2 ^ 64) % 2 ^ 64 = percent * 3 * 1000 := by omega
  have hbound : percent * 3 * 1000 * cores ≤ 100 * 3 * 1000 * 2 ^ 32 :=
    Nat.mul_le_mul (Nat.mul_le_mul_right _ (Nat.mul_le_mul_right _ hpercent)) hcores.le
  rw [hiv, Nat.mod_eq_of_lt (by omega)]

theorem toNat_cpuLimit (flags : Flags) : (cpuLimit flags).toNat = exactCpuLimit flags := by
  have hpercent : ∀ p : UInt64, (if p > 100 then 100 else p).toNat = min p.toNat 100 := by
    intro p
    split_ifs with h
    · exact (Nat.min_eq_right (UInt64.le_iff_toNat_le.1 (UInt64.le_of_lt h))).symm
    · exact (Nat.min_eq_left (UInt64.le_iff_toNat_le.1 (UInt64.not_lt.1 h))).symm
  simp only [cpuLimit, exactCpuLimit, checkInterval_eq, UInt64.toNat_div, UInt64.toNat_mul,
    hpercent, UInt32.toNat_toUInt64]
  exact toNat_share (Nat.min_le_right _ _) flags.kNumOfCPUs.toNat_lt

theorem toNat_memoryLimitBytes {flags : Flags} (h : flags.watchdog_memory_limit.toNat < 2 ^ 32) :
    (memoryLimitBytes flags).toNat = (getWorkerLimit flags .memoryLimit).toNat * 2 ^ 20 := by
  have hlimit : (getWorkerLimit flags .memoryLimit).toNat < 2 ^ 32 := by
    unfold getWorkerLimit
    split_ifs with hmemory hutilization
    · exact h
    · cases hutilization.1
    · decide
    · decide
    · decide
  have hbytes : (1024 : UInt64).toNat = 1024 := rfl
  rw [memoryLimitBytes, UInt64.toNat_mul, UInt64.toNat_mul, hbytes]
  omega

theorem natCast_toNat_ofInt (z : ℤ) : ((UInt64.ofInt z).toNat : ℤ) = z % 2 ^ 64 := by
  rw [UInt64.ofInt, UInt64.toNat_ofNat']
  omega

theorem lt_ofInt_iff {limit : UInt64} {z : ℤ} :
    limit < UInt64.ofInt z ↔ (limit.toNat : ℤ) < z % 2 ^ 64 := by
  rw [UInt64.lt_iff_toNat_lt, ← natCast_toNat_ofInt, Int.ofNat_lt]

theorem getChange_times (flags : Flags) (state : PerformanceState) (sample : Sample) :
    (getChange flags state sample).1.user_time + (getChange flags state sample).1.system_time =
      UInt64.ofInt (cpuTime sample.row) := by
  rw [cpuTime, UInt64.ofInt_add]
  rfl

theorem getChange_latency {flags : Flags} {state : PerformanceState} {previous : ℤ}
    (h : state.user_time + state.system_time = UInt64.ofInt previous) (sample : Sample) :
    (getChange flags state sample).1.sustained_latency =
      if (exactCpuLimit flags : ℤ) < (cpuTime sample.row - previous) % 2 ^ 64 then
        (if (readCounters sample.row).thrown then 0 else state.sustained_latency) + 1
      else 0 := by
  have hused : ∀ u s : ℤ,
      (UInt64.ofInt u - state.user_time) + (UInt64.ofInt s - state.system_time) =
        UInt64.ofInt (u + s - previous) := by
    intro u s
    rw [Int.sub_eq_add_neg, UInt64.ofInt_add, UInt64.ofInt_neg, ← h, UInt64.ofInt_add]
    grind
  simp only [getChange, hused, gt_iff_lt, lt_ofInt_iff, toNat_cpuLimit]
  rfl

/-! ### What a sample has to meet -/

/-- The outcome of the comparison with the wrapped difference is that with the difference, and
no sample that misses a column goes on with a streak. -/
structure ComparesExactly (flags : Flags) (before : List Sample) (sample : Sample) : Prop where
  decrease : cpuTimeUsed before sample < 0 →
    cpuTimeUsed before sample % 2 ^ 64 ≤ exactCpuLimit flags
  beyond : 2 ^ 64 ≤ cpuTimeUsed before sample →
    exactCpuLimit flags < cpuTimeUsed before sample % 2 ^ 64
  complete : (readCounters sample.row).thrown = true → OverLimit flags before sample →
    streak (OverLimit flags) before = 0

theorem exactCpuLimit_lt (flags : Flags) : exactCpuLimit flags < 2 ^ 64 :=
  toNat_cpuLimit flags ▸ (cpuLimit flags).toNat_lt

theorem comparesExactly_iff {flags : Flags} {before : List Sample} {sample : Sample} :
    ComparesExactly flags before sample ↔
      ((exactCpuLimit flags : ℤ) < cpuTimeUsed before sample % 2 ^ 64 ↔
          OverLimit flags before sample) ∧
        ((readCounters sample.row).thrown = true → OverLimit flags before sample →
          streak (OverLimit flags) before = 0) := by
  have hlimit := exactCpuLimit_lt flags
  have hrange : ((cpuTimeUsed before sample < 0 →
        cpuTimeUsed before sample % 2 ^ 64 ≤ exactCpuLimit flags) ∧
      (2 ^ 64 ≤ cpuTimeUsed before sample →
        exactCpuLimit flags < cpuTimeUsed before sample % 2 ^ 64)) ↔
      ((exactCpuLimit flags : ℤ) < cpuTimeUsed before sample % 2 ^ 64 ↔
        OverLimit flags before sample) := by
    rw [OverLimit]
    omega
  constructor
  · rintro ⟨hdecrease, hbeyond, hcomplete⟩
    exact ⟨hrange.1 ⟨hdecrease, hbeyond⟩, hcomplete⟩
  · rintro ⟨hcompare, hcomplete⟩
    exact ⟨(hrange.2 hcompare).1, (hrange.2 hcompare).2, hcomplete⟩

section Run

variable (flags : Flags) (state : PerformanceState) (respawn_time : UInt64)

/-- The state of a child after samples that follow a reset of its counters. -/
def stateAfterSamples (samples : List Sample) : PerformanceState :=
  stateAfter (getChange flags) (state.resetCounters respawn_time) samples

theorem stateAfterSamples_concat (before : List Sample) (sample : Sample) :
    stateAfterSamples flags state respawn_time (before ++ [sample]) =
      (getChange flags (stateAfterSamples flags state respawn_time before) sample).1 :=
  stateAfter_concat _ _ _ _

/-- The stored times always add up to the CPU time of the last sample. -/
theorem stateAfterSamples_times (samples : List Sample) :
    (stateAfterSamples flags state respawn_time samples).user_time +
        (stateAfterSamples flags state respawn_time samples).system_time =
      UInt64.ofInt (cpuTimeBefore samples) := by
  induction samples using List.reverseRecOn with
  | nil => rfl
  | append_singleton before sample _ =>
      rw [stateAfterSamples_concat, cpuTimeBefore_concat, getChange_times]

/-- One more sample continues a right count exactly when it compares exactly. -/
theorem latency_concat_iff {before : List Sample} (sample : Sample)
    (h : (stateAfterSamples flags state respawn_time before).sustained_latency =
      streak (OverLimit flags) before) :
    (stateAfterSamples flags state respawn_time (before ++ [sample])).sustained_latency =
        streak (OverLimit flags) (before ++ [sample]) ↔
      ComparesExactly flags before sample := by
  have htimes := stateAfterSamples_times flags state respawn_time before
  rw [stateAfterSamples_concat, getChange_latency htimes, h, streak_concat, comparesExactly_iff,
    ← cpuTimeUsed]
  by_cases hover : OverLimit flags before sample
  · by_cases hcompare : (exactCpuLimit flags : ℤ) < cpuTimeUsed before sample % 2 ^ 64
    · simp only [hcompare, hover, if_true, true_implies, true_and, Nat.add_right_cancel_iff]
      by_cases hthrown : (readCounters sample.row).thrown = true
      · simp [hthrown, eq_comm]
      · simp [hthrown]
    · rw [if_neg hcompare, if_pos hover]
      constructor
      · intro hcount
        omega
      · rintro ⟨hsame, -⟩
        exact absurd (hsame.2 hover) hcompare
  · simp [hover]

/-- The limits are the ones the flags ask for, and the streak that is counted is that of the
samples whose CPU time exceeds the limit. -/
structure CountsCpuUse (samples : List Sample) : Prop where
  cpu_limit_exact : (cpuLimit flags).toNat = exactCpuLimit flags
  memory_limit_exact : flags.watchdog_memory_limit.toNat < 2 ^ 32 →
    (memoryLimitBytes flags).toNat = (getWorkerLimit flags .memoryLimit).toNat * 2 ^ 20
  over_limit : ∀ before sample, before ++ [sample] <+: samples →
    (stateAfterSamples flags state respawn_time (before ++ [sample])).sustained_latency ≠ 0 →
      OverLimit flags before sample
  consecutive : ∀ before, before <+: samples →
    (stateAfterSamples flags state respawn_time before).sustained_latency =
      streak (OverLimit flags) before

/-- The watchdog counts the CPU use of a run exactly when each sample compares exactly. -/
theorem countsCpuUse_iff (samples : List Sample) :
    CountsCpuUse flags state respawn_time samples ↔
      ∀ before sample, before ++ [sample] <+: samples → ComparesExactly flags before sample := by
  have hconsecutive := forall_prefix_iff (P := fun before =>
      (stateAfterSamples flags state respawn_time before).sustained_latency =
        streak (OverLimit flags) before) rfl
    (fun _ sample h => latency_concat_iff flags state respawn_time sample h) samples
  constructor
  · intro h
    exact hconsecutive.1 h.consecutive
  · intro h
    have hcounted := hconsecutive.2 h
    refine ⟨toNat_cpuLimit flags, toNat_memoryLimitBytes, ?_, hcounted⟩
    intro before sample hsample hne
    rw [hcounted _ hsample] at hne
    exact (streak_concat_ne_zero _).1 hne

end Run

def defaultFlags : Flags := ⟨0, 0, 0, 4⟩

def processRow (parent user_time system_time resident_size : String) : Row :=
  (((∅ : Row).insert "parent" parent).insert "user_time" user_time).insert "system_time" system_time
    |>.insert "resident_size" resident_size

def timesSample (user_time : String) : Sample := ⟨processRow "1" user_time "0" "0", ⟨0, 0, 0, 0⟩⟩

/-- A user time that falls from one hundred to fifty milliseconds: the difference of minus fifty
wraps around and counts as a sample over the limit. -/
theorem restart_counts_as_use :
    ¬ CountsCpuUse defaultFlags .new 0 [timesSample "100", timesSample "50"] := by
  intro h
  have hover := h.over_limit [timesSample "100"] (timesSample "50") (List.prefix_refl _)
    (by decide)
  revert hover
  decide

end Osquery.Watchdog.Performance
