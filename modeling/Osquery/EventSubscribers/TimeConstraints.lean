import Osquery.EventSubscribers.TimeRange

/-!
# Constraints on the time column

A table only receives the texts of the operands. It reads the leading integer
of a text as a signed number and compares times with it as an unsigned one, so
a negative operand is above every time, and a text such as `1e3` stands for
another number than it does in SQLite. Upper bounds are never applied: the end
of the range starts at zero, which is below every bound and means no end.

## Implementation notes

How SQLite compares a time with an operand is a parameter of a comparison: the
results hold for every operand and its text. An event is yielded when its row
is among the rows of the table.
-/

namespace Osquery.EventSubscribers

open Foundation.AtomicProgram Foundation.JsonText Foundation.Numeral Foundation.Separated
open Foundation.Grouping Core.BackingStore Core.Conversions Core.Rows

variable {p : Process} {sub : Subscriber} {s : State} {log : EventLog}

/-! ### Comparisons -/

/-- A constraint as the table receives it, with the times that SQLite lets pass. -/
structure Comparison where
  constraint : Constraint
  admits : ℕ → Prop

/-- The comparison that an operator makes between a time and an integer. -/
def ConstraintOperator.relatesInteger : ConstraintOperator → ℤ → ℤ → Prop
  | .equals, t, z => t = z
  | .greaterThan, t, z => z < t
  | .lessThanOrEquals, t, z => t ≤ z
  | .lessThan, t, z => t < z
  | .greaterThanOrEquals, t, z => z ≤ t
  | _, _, _ => False

/-- The comparison of the time with an integer, whose text is its decimal numeral. -/
def Comparison.integer (op : ConstraintOperator) (z : ℤ) : Comparison :=
  ⟨⟨op, toString z⟩, fun t => op.relatesInteger t z⟩

/-! ### What the bounds let through -/

/-- The least time that a constraint lets pass, for those that move the start. -/
def Constraint.lowerBound (c : Constraint) : Option EventTime :=
  match c.op with
  | .greaterThan => some (timeFromRecord c.expr + 1)
  | .greaterThanOrEquals => some (timeFromRecord c.expr)
  | _ => none

/-- The first equality reads as the time, or as zero; without one, every lower bound is
at most the time. -/
def Reaches (constraints : List Constraint) (t : EventTime) : Prop :=
  match constraints.find? fun c => c.op = .equals with
  | some c => timeFromRecord c.expr = t ∨ timeFromRecord c.expr = 0
  | none => ∀ c ∈ constraints, ∀ bound, c.lowerBound = some bound → bound ≤ t

theorem max_le_iff_time {a b c : EventTime} : max a b ≤ c ↔ a ≤ c ∧ b ≤ c := by
  rw [show max a b = if a ≤ b then b else a from rfl]
  split <;> grind

theorem zero_le_time (t : EventTime) : (0 : EventTime) ≤ t :=
  UInt64.le_iff_toNat_le.mpr (Nat.zero_le _)

/-- Whether a time lies between the bounds of the constraints that follow a start. -/
theorem between_timeBounds_iff (constraints : List Constraint) (start t : EventTime) :
    ((timeBounds start 0 constraints).1 ≤ t ∧
      (t ≤ (timeBounds start 0 constraints).2 ∨ (timeBounds start 0 constraints).2 = 0)) ↔
    match constraints.find? fun c => c.op = .equals with
    | some c => timeFromRecord c.expr = t ∨ timeFromRecord c.expr = 0
    | none => start ≤ t ∧ ∀ c ∈ constraints, ∀ bound, c.lowerBound = some bound → bound ≤ t := by
  induction constraints generalizing start with
  | nil => simp [timeBounds]
  | cons c rest ih =>
      by_cases heq : c.op = .equals
      · have hzero := zero_le_time t
        rw [List.find?_cons_of_pos (by simpa using heq), timeBounds, heq]
        dsimp only
        constructor
        · rintro ⟨hlow, hhigh | hhigh⟩
          · exact Or.inl (UInt64.le_antisymm hlow hhigh)
          · exact Or.inr hhigh
        · rintro (hval | hval)
          · exact ⟨hval ▸ UInt64.le_refl _, Or.inl (hval ▸ UInt64.le_refl _)⟩
          · exact ⟨hval ▸ hzero, Or.inr hval⟩
      · rw [List.find?_cons_of_neg (by simpa using heq), timeBounds]
        cases hop : c.op with
        | equals => exact absurd hop heq
        | greaterThan =>
            simp only [ih, max_le_iff_time, List.forall_mem_cons, Constraint.lowerBound, hop,
              Option.some.injEq, forall_eq', and_assoc]
        | greaterThanOrEquals =>
            simp only [ih, max_le_iff_time, List.forall_mem_cons, Constraint.lowerBound, hop,
              Option.some.injEq, forall_eq', and_assoc]
        | _ =>
            simp [ih, min_zero_left, Constraint.lowerBound, hop]

theorem reaches_iff (constraints : List Constraint) (t : EventTime) :
    ((timeBounds 0 0 constraints).1 ≤ t ∧
      (t ≤ (timeBounds 0 0 constraints).2 ∨ (timeBounds 0 0 constraints).2 = 0)) ↔
        Reaches constraints t := by
  rw [between_timeBounds_iff, Reaches]
  cases constraints.find? fun c => c.op = .equals with
  | some c => rfl
  | none => simp only [zero_le_time, true_and]

/-- The end is the start of an equality, or no end. -/
theorem timeBounds_stop (constraints : List Constraint) (start : EventTime) :
    (timeBounds start 0 constraints).2 = 0 ∨
      (timeBounds start 0 constraints).2 = (timeBounds start 0 constraints).1 := by
  induction constraints generalizing start with
  | nil => exact Or.inl rfl
  | cons c rest ih =>
      rw [timeBounds]
      cases c.op with
      | equals => exact Or.inr rfl
      | lessThan =>
          dsimp only
          rw [min_zero_left]
          exact ih start
      | lessThanOrEquals =>
          dsimp only
          rw [min_zero_left]
          exact ih start
      | _ => exact ih _

/-- The records of a scan for constraints: those that the bounds reach as their times are
read, and that are not before the optimization position. -/
theorem mem_scanned_span_iff (constraints : List Constraint) {m : Members} {r : Record} :
    (r ∈ scanned p m (timeBounds 0 0 constraints).1 (timeBounds 0 0 constraints).2 log ∧
        inSpan (timeBounds 0 0 constraints).1 (timeBounds 0 0 constraints).2 r = true) ↔
      r ∈ log.records ∧ expires m r.bin = false ∧ passes p m true r = true ∧
        Reaches constraints (readTime r.time) := by
  rw [mem_scanned, inSpan, Bool.and_eq_true, Bool.or_eq_true, decide_eq_true_eq, decide_eq_true_eq,
    decide_eq_true_eq, reaches_iff]
  constructor
  · rintro ⟨⟨hmem, -, hexp, hpass⟩, hreach⟩
    exact ⟨hmem, hexp, hpass, hreach⟩
  · rintro ⟨hmem, hexp, hpass, hreach⟩
    refine ⟨⟨hmem, ?_, hexp, hpass⟩, hreach⟩
    rw [← reaches_iff, readTime] at hreach
    split at hreach
    · exact mem_rangeBins_of_bounds hmem hreach.1 hreach.2.symm
    · have hstart : (timeBounds 0 0 constraints).1 = 0 :=
        UInt64.le_antisymm hreach.1 (zero_le_time _)
      have hstop : (timeBounds 0 0 constraints).2 = 0 := by
        rcases timeBounds_stop constraints 0 with hstop | hstop
        · exact hstop
        · exact hstop.trans hstart
      refine mem_rangeBins_of_bounds hmem ?_ (Or.inl hstop)
      rw [hstart]
      exact zero_le_time _

/-! ### Tables without lost rows -/

/-- A stored event that has not expired and satisfies every comparison. -/
structure Satisfies (m : Members) (log : EventLog) (comparisons : List Comparison) (r : Record) :
    Prop where
  mem : r ∈ log.records
  unexpired : expires m r.bin = false
  admitted : ∀ c ∈ comparisons, c.admits r.time.toNat

/-- The rows hold those of all stored events that satisfy the comparisons. -/
def YieldsSatisfying (p : Process) (sub : Subscriber) (s : State) (log : EventLog)
    (comparisons : List Comparison) (rows : List Row) : Prop :=
  ∀ r row, Satisfies s.members log comparisons r → rowAt p sub.dbNamespace s.db r = some row →
    row ∈ rows

/-- A stored event that the scan for the constraints reads and whose row it finds. -/
structure Reached (p : Process) (sub : Subscriber) (s : State) (log : EventLog)
    (constraints : List Constraint) (r : Record) : Prop where
  mem : r ∈ log.records
  unexpired : expires s.members r.bin = false
  bounds : Reaches constraints (readTime r.time)
  passes : EventSubscribers.passes p s.members true r = true
  found : ¬Lost sub.dbNamespace s.members log (dataKey sub.dbNamespace (toIndex r.eid))

/-- Without the optimization, a table is generated by one scan between the bounds. -/
theorem run_genTable_bounds (hopt : p.isDaemon = false ∨ p.eventsOptimize = false)
    (constraints : List Constraint) (now now' : EventTime) (s : State) :
    (genTable p sub constraints now now').run s =
      (get p sub (timeBounds 0 0 constraints).1 (timeBounds 0 0 constraints).2 now').run s := by
  by_cases hc : constraints = []
  · subst hc
    have hflag : (p.isDaemon && p.eventsOptimize) = false := by
      rcases hopt with h | h <;> simp [h]
    rw [genTable, if_neg (not_not.mpr rfl), hflag]
    rfl
  · exact run_genTable_constrained hc now now' s

/-- The rows of a table are those of the reached events. -/
theorem mem_genTable_iff (hopt : p.isDaemon = false ∨ p.eventsOptimize = false)
    (h : Stored sub s log) (constraints : List Constraint) (now now' : EventTime) (row : Row) :
    row ∈ ((genTable p sub constraints now now').run s).1 ↔
      ∃ r, Reached p sub s log constraints r ∧ rowAt p sub.dbNamespace s.db r = some row := by
  rw [run_genTable_bounds hopt, mem_rows_iff h]
  constructor
  · rintro ⟨r, hscan, hspan, hrow, hfound⟩
    obtain ⟨hmem, hexp, hpass, hreach⟩ := (mem_scanned_span_iff constraints).mp ⟨hscan, hspan⟩
    exact ⟨r, ⟨hmem, hexp, hreach, hpass, hfound⟩, hrow⟩
  · rintro ⟨r, hr, hrow⟩
    obtain ⟨hscan, hspan⟩ := (mem_scanned_span_iff constraints).mpr
      ⟨hr.mem, hr.unexpired, hr.passes, hr.bounds⟩
    exact ⟨r, hscan, hspan, hrow, hr.found⟩

/-- A table yields every event that satisfies its comparisons if and only if each of them is
reached, or another event with the same row is. -/
theorem genTable_yieldsSatisfying_iff (hopt : p.isDaemon = false ∨ p.eventsOptimize = false)
    (h : Stored sub s log) (comparisons : List Comparison) (now now' : EventTime) :
    YieldsSatisfying p sub s log comparisons
        ((genTable p sub (comparisons.map Comparison.constraint) now now').run s).1 ↔
      ∀ r row, Satisfies s.members log comparisons r → rowAt p sub.dbNamespace s.db r = some row →
        ∃ r', Reached p sub s log (comparisons.map Comparison.constraint) r' ∧
          rowAt p sub.dbNamespace s.db r' = some row := by
  simp only [YieldsSatisfying, mem_genTable_iff hopt h]

/-- With different rows for different events, every one of them has to be reached. -/
theorem yieldsSatisfying_iff_reached (hopt : p.isDaemon = false ∨ p.eventsOptimize = false)
    (h : Stored sub s log) (hdistinct : DistinctRows p sub.dbNamespace s.db log)
    (comparisons : List Comparison) (now now' : EventTime) :
    YieldsSatisfying p sub s log comparisons
        ((genTable p sub (comparisons.map Comparison.constraint) now now').run s).1 ↔
      ∀ r row, Satisfies s.members log comparisons r → rowAt p sub.dbNamespace s.db r = some row →
        Reached p sub s log (comparisons.map Comparison.constraint) r := by
  rw [genTable_yieldsSatisfying_iff hopt h]
  constructor
  · intro hall r row hr hrow
    obtain ⟨r', hreached, hrow'⟩ := hall r row hr hrow
    exact hdistinct r hr.mem r' hreached.mem row hrow hrow' ▸ hreached
  · exact fun hall r row hr hrow => ⟨r, hall r row hr hrow, hrow⟩

/-- Comparisons with integers from zero on that are signed 64-bit numbers reach every time
that satisfies them. -/
theorem reaches_of_admits {constraints : List Constraint} {t : EventTime}
    (h : ∀ c ∈ constraints, c.Admits t.toNat) : Reaches constraints t := by
  rw [← reaches_iff]
  exact (timeBounds_contain (zero_le_time t) h).imp_right Or.symm

/-! ### A negative operand -/

/-- A shell with the optimization off. -/
def shellProcess : Process := ⟨reference, false, false⟩

/-- One event at the time 100. -/
def rangeState : State := execAll sampleProcess sampleSubscriber rangeActions initial

theorem rangeState_stored : ∃ log, Stored sampleSubscriber rangeState log ∧
    log.records = [⟨1, 100⟩] ∧
      rowAt shellProcess sampleSubscriber.dbNamespace rangeState.db ⟨1, 100⟩ =
        some sampleEvent.yielded :=
  sample_stored rfl rfl rangeActions_timeline

theorem genTable_yieldsSatisfying_negative :
    ∃ log, Stored sampleSubscriber rangeState log ∧
      (YieldsSatisfying shellProcess sampleSubscriber rangeState log
          [Comparison.integer .greaterThan (-5)]
          ((genTable shellProcess sampleSubscriber [⟨.greaterThan, "-5"⟩] 100 100).run
            rangeState).1 ↔
        ∀ r row, Satisfies rangeState.members log [Comparison.integer .greaterThan (-5)] r →
          rowAt shellProcess sampleSubscriber.dbNamespace rangeState.db r = some row →
            ∃ r', Reached shellProcess sampleSubscriber rangeState log [⟨.greaterThan, "-5"⟩] r' ∧
              rowAt shellProcess sampleSubscriber.dbNamespace rangeState.db r' = some row) := by
  obtain ⟨log, hstored, -, -⟩ := rangeState_stored
  exact ⟨log, hstored, genTable_yieldsSatisfying_iff (Or.inl rfl) hstored
    [Comparison.integer .greaterThan (-5)] 100 100⟩

/-- Every time is greater than -5, but the table has no rows. -/
theorem negative_not_yieldsSatisfying :
    ¬∀ (p : Process) (sub : Subscriber) (s : State) (log : EventLog)
      (operands : List (ConstraintOperator × ℤ)) (now now' : EventTime),
        p.isDaemon = false ∨ p.eventsOptimize = false → Stored sub s log →
          YieldsSatisfying p sub s log (operands.map fun o => Comparison.integer o.1 o.2)
            ((genTable p sub (operands.map fun o => (Comparison.integer o.1 o.2).constraint)
              now now').run s).1 := by
  intro h
  obtain ⟨log, hstored, hrecords, hrow⟩ := rangeState_stored
  have hyields := h shellProcess sampleSubscriber rangeState log [(.greaterThan, -5)] 100 100
    (Or.inl rfl) hstored
  have hsat : Satisfies rangeState.members log [Comparison.integer .greaterThan (-5)] ⟨1, 100⟩ := by
    refine ⟨by rw [hrecords]; exact List.mem_singleton_self _, by decide +kernel, ?_⟩
    intro c hc
    rw [List.mem_singleton] at hc
    subst hc
    change (-5 : ℤ) < 100
    decide
  have hmem := hyields ⟨1, 100⟩ sampleEvent.yielded hsat hrow
  have hempty : ((genTable shellProcess sampleSubscriber [⟨.greaterThan, "-5"⟩] 100 100).run
      rangeState).1.length = 0 := by
    decide +kernel
  change sampleEvent.yielded ∈ ((genTable shellProcess sampleSubscriber
    [⟨.greaterThan, "-5"⟩] 100 100).run rangeState).1 at hmem
  rw [List.length_eq_zero_iff.mp hempty] at hmem
  exact List.not_mem_nil hmem

end Osquery.EventSubscribers
