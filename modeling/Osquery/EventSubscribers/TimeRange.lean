import Osquery.EventSubscribers.Delivery

/-!
# Queries with a time range

A query with constraints on the time column scans from its lower bound without
the position of the executing query. The records are still compared with the
optimization members, which the last query without a time constraint left
behind, so the range is complete when these members let all of it pass.
-/

namespace Osquery.EventSubscribers

open Foundation.AtomicProgram Foundation.JsonText Foundation.Numeral Foundation.Separated
open Foundation.Grouping Foundation.Feed Core.BackingStore Core.Conversions Core.Rows

variable {p : Process} {sub : Subscriber} {s : State} {log : EventLog}

/-! ### Ranges as constraints -/

/-- The comparison that an operator makes between a time and a number. -/
def ConstraintOperator.relates : ConstraintOperator → ℕ → ℕ → Prop
  | .equals, t, n => t = n
  | .greaterThan, t, n => n < t
  | .lessThanOrEquals, t, n => t ≤ n
  | .lessThan, t, n => t < n
  | .greaterThanOrEquals, t, n => n ≤ t
  | _, _, _ => False

/-- A constraint compares the time with an integer of SQLite, and a time satisfies it. -/
def Constraint.Admits (c : Constraint) (t : ℕ) : Prop :=
  ∃ n, n < 2 ^ 63 ∧ c.expr = toText n ∧ c.op.relates t n

/-- Constraints that describe the closed range of times from `t₁` to `t₂`. -/
structure ClosedRange (constraints : List Constraint) (t₁ t₂ : ℕ) : Prop where
  positive : 0 < t₁
  le : t₁ ≤ t₂
  admits_iff : ∀ t, (∀ c ∈ constraints, c.Admits t) ↔ t₁ ≤ t ∧ t ≤ t₂

theorem ClosedRange.ne_nil {constraints : List Constraint} {t₁ t₂ : ℕ}
    (h : ClosedRange constraints t₁ t₂) : constraints ≠ [] := by
  rintro rfl
  have hzero := (h.admits_iff 0).mp fun c hc => absurd hc List.not_mem_nil
  have hpos := h.positive
  omega

/-- A bound from above is below the end of the signed integers. -/
theorem Constraint.Admits.bounded {c : Constraint} {t : ℕ} (h : c.Admits t)
    (hnext : ¬c.Admits (t + 1)) : t < 2 ^ 63 := by
  obtain ⟨n, hn, hexpr, hrel⟩ := h
  have hno : ¬c.op.relates (t + 1) n := fun hr => hnext ⟨n, hn, hexpr, hr⟩
  cases hop : c.op <;> simp only [hop, ConstraintOperator.relates] at hrel hno <;> omega

theorem ClosedRange.lt {constraints : List Constraint} {t₁ t₂ : ℕ}
    (h : ClosedRange constraints t₁ t₂) : t₂ < 2 ^ 63 := by
  have hadmits := (h.admits_iff t₂).mpr ⟨h.le, le_rfl⟩
  have hnext : ¬∀ c ∈ constraints, c.Admits (t₂ + 1) := by
    rw [h.admits_iff]
    omega
  push Not at hnext
  obtain ⟨c, hc, hno⟩ := hnext
  exact (hadmits c hc).bounded hno

theorem min_zero_left (x : EventTime) : min 0 x = 0 := by
  have hle : (0 : EventTime) ≤ x := UInt64.le_iff_toNat_le.mpr (Nat.zero_le _)
  exact if_pos hle

theorem max_le_of_le {a b c : EventTime} (ha : a ≤ c) (hb : b ≤ c) : max a b ≤ c := by
  rw [show max a b = if a ≤ b then b else a from rfl]
  split
  · exact hb
  · exact ha

theorem timeFromRecord_numeral {n : ℕ} (h : n < 2 ^ 63) :
    (timeFromRecord (toText n)).toNat = n := by
  rw [timeFromRecord_toText, if_pos h, UInt64.toNat_ofNat']
  exact Nat.mod_eq_of_lt (by omega)

/-- The bounds of a scan contain every time that the constraints admit. -/
theorem timeBounds_contain {constraints : List Constraint} {start t : EventTime}
    (hstart : start ≤ t) (h : ∀ c ∈ constraints, c.Admits t.toNat) :
    (timeBounds start 0 constraints).1 ≤ t ∧
      ((timeBounds start 0 constraints).2 = 0 ∨ t ≤ (timeBounds start 0 constraints).2) := by
  induction constraints generalizing start with
  | nil => exact ⟨hstart, Or.inl rfl⟩
  | cons c rest ih =>
      obtain ⟨n, hn, hexpr, hrel⟩ := h c List.mem_cons_self
      have hrest := fun start' (hle : start' ≤ t) =>
        ih hle fun d hd => h d (List.mem_cons_of_mem _ hd)
      have hval := timeFromRecord_numeral hn
      have h1 : (1 : UInt64).toNat = 1 := rfl
      rw [timeBounds, hexpr]
      cases hop : c.op with
      | equals =>
          rw [hop, ConstraintOperator.relates] at hrel
          have heq : timeFromRecord (toText n) = t := UInt64.toNat_inj.mp (hval.trans hrel.symm)
          dsimp only
          rw [heq]
          exact ⟨UInt64.le_refl t, Or.inr (UInt64.le_refl t)⟩
      | greaterThan =>
          rw [hop, ConstraintOperator.relates] at hrel
          refine hrest _ (max_le_of_le hstart ?_)
          rw [UInt64.le_iff_toNat_le, UInt64.toNat_add, hval, h1, Nat.mod_eq_of_lt (by omega)]
          exact hrel
      | greaterThanOrEquals =>
          rw [hop, ConstraintOperator.relates] at hrel
          refine hrest _ (max_le_of_le hstart ?_)
          rw [UInt64.le_iff_toNat_le, hval]
          exact hrel
      | lessThan =>
          dsimp only
          rw [min_zero_left]
          exact hrest _ hstart
      | lessThanOrEquals =>
          dsimp only
          rw [min_zero_left]
          exact hrest _ hstart
      | _ =>
          rw [hop] at hrel
          exact hrel.elim

/-! ### What a scan of a range yields -/

/-- A stored event in the range whose bin does not expire. -/
structure InClosedRange (m : Members) (log : EventLog) (t₁ t₂ : ℕ) (r : Record) : Prop where
  mem : r ∈ log.records
  lower : t₁ ≤ r.time.toNat
  upper : r.time.toNat ≤ t₂
  unexpired : expires m r.bin = false

/-- The rows yielded are those of all stored events in the range, and of stored
events only. -/
structure CompleteRange (p : Process) (sub : Subscriber) (s : State) (log : EventLog) (t₁ t₂ : ℕ)
    (rows : List Row) : Prop where
  complete : ∀ r row, InClosedRange s.members log t₁ t₂ r →
    rowAt p sub.dbNamespace s.db r = some row → row ∈ rows
  only_stored : ∀ row ∈ rows, ∃ r ∈ log.records, rowAt p sub.dbNamespace s.db r = some row

/-- The optimization members let every stored event of the range pass, and no
key range of an expired bin takes its row away. -/
def RangePasses (p : Process) (sub : Subscriber) (s : State) (log : EventLog) (t₁ t₂ : ℕ) : Prop :=
  ∀ r row, InClosedRange s.members log t₁ t₂ r → rowAt p sub.dbNamespace s.db r = some row →
    passes p s.members true r = true ∧
      ¬Lost sub.dbNamespace s.members log (dataKey sub.dbNamespace (toIndex r.eid))

/-- Different stored events have different rows. -/
def DistinctRows (p : Process) (ns : String) (db : Database) (log : EventLog) : Prop :=
  ∀ r ∈ log.records, ∀ r' ∈ log.records, ∀ row, rowAt p ns db r = some row →
    rowAt p ns db r' = some row → r = r'

/-- Expiry takes the rows away whose keys it removes and leaves the others. -/
theorem Expired.rowAt_eq {ns : String} {m : Members} {db db' : Database}
    (h : Expired ns m log db db') (r : Record) (row : Row) :
    rowAt p ns db' r = some row ↔
      rowAt p ns db r = some row ∧ ¬Lost ns m log (dataKey ns (toIndex r.eid)) := by
  by_cases hlost : Lost ns m log (dataKey ns (toIndex r.eid))
  · have hgone : valueAt db' (dataKey ns (toIndex r.eid)) = "" := by
      rw [valueAt, h.gone _ hlost]
      rfl
    simp [rowAt, hgone, rowOf, hlost]
  · have hkept : valueAt db' (dataKey ns (toIndex r.eid)) =
        valueAt db (dataKey ns (toIndex r.eid)) := by
      rw [valueAt, valueAt, h.kept]
      rintro ⟨-, hk | hk | hk⟩
      · exact dataKey_not_index ns ns _ (Or.inl hk)
      · exact dataKey_not_index ns ns _ (Or.inr hk)
      · exact hlost hk
    simp [rowAt, hkept, hlost]

/-- The bin of a record within bounds lies in the range of the bounds. -/
theorem mem_rangeBins_of_bounds {start stop : EventTime} {r : Record} (hr : r ∈ log.records)
    (hstart : start ≤ r.time) (hstop : stop = 0 ∨ r.time ≤ stop) :
    r.bin ∈ rangeBins start stop log.bins := by
  have h60 : (60 : UInt64).toNat = 60 := rfl
  have h1 : (1 : UInt64).toNat = 1 := rfl
  have hbin := toNat_ofNat_bin r.bin_lt
  have hlow : (if start > 0 then start / 60 else 0) ≤ UInt64.ofNat r.bin := by
    rw [UInt64.le_iff_toNat_le, hbin]
    split
    · rw [UInt64.toNat_div, h60]
      exact Nat.div_le_div_right (UInt64.le_iff_toNat_le.mp hstart)
    · exact Nat.zero_le _
  have hhigh : (if stop > 0 then stop / 60 + 1 else 0) = 0 ∨
      UInt64.ofNat r.bin < (if stop > 0 then stop / 60 + 1 else 0) := by
    by_cases hpos : stop > 0
    · right
      have hle : r.time.toNat ≤ stop.toNat := by
        rcases hstop with rfl | hstop
        · exact absurd hpos (UInt64.lt_irrefl 0)
        · exact UInt64.le_iff_toNat_le.mp hstop
      have hlt := stop.toNat_lt
      rw [if_pos hpos, UInt64.lt_iff_toNat_lt, hbin, UInt64.toNat_add, UInt64.toNat_div, h60, h1,
        Nat.mod_eq_of_lt (by omega)]
      exact Nat.lt_succ_of_le (Nat.div_le_div_right hle)
    · left
      rw [if_neg hpos]
  rw [rangeBins, List.mem_insertionSort, List.mem_filter, inRange]
  refine ⟨(mem_keys Record.bin).mpr ⟨r, hr, rfl⟩, ?_⟩
  rw [Bool.and_eq_true, Bool.or_eq_true, decide_eq_true_eq, decide_eq_true_eq, decide_eq_true_eq]
  exact ⟨hlow, hhigh⟩

theorem mem_scanned {m : Members} {start stop : EventTime} {r : Record} :
    r ∈ scanned p m start stop log ↔ r ∈ log.records ∧ r.bin ∈ rangeBins start stop log.bins ∧
      expires m r.bin = false ∧ passes p m true r = true := by
  simp only [scanned, List.mem_flatMap, List.mem_filter, EventLog.binRecords, mem_group,
    EventLog.expire, EventLog.keep, Bool.not_eq_true']
  constructor
  · rintro ⟨b, hb, ⟨⟨hmem, hexp⟩, rfl⟩, hpass⟩
    exact ⟨hmem, hb, hexp, hpass⟩
  · rintro ⟨hmem, hb, hexp, hpass⟩
    exact ⟨r.bin, hb, ⟨⟨hmem, hexp⟩, rfl⟩, hpass⟩

/-- The rows of a scan are those of the records that it reads in its span. -/
theorem mem_rows_iff (h : Stored sub s log) (start stop now : EventTime) (row : Row) :
    row ∈ ((get p sub start stop now).run s).1 ↔
      ∃ r ∈ scanned p s.members start stop log, inSpan start stop r = true ∧
        rowAt p sub.dbNamespace s.db r = some row ∧
        ¬Lost sub.dbNamespace s.members log (dataKey sub.dbNamespace (toIndex r.eid)) := by
  obtain ⟨db₁, hexp, hrun⟩ := run_get p h.represents h.wholeMinute start stop now
  rw [hrun, List.mem_filterMap]
  simp only [List.mem_filter, hexp.rowAt_eq, and_assoc]

/-- A stored event of the range lies in the bounds and the span of the scan. -/
theorem InClosedRange.visited {constraints : List Constraint} {t₁ t₂ : ℕ} {m : Members} {r : Record}
    (hrange : ClosedRange constraints t₁ t₂) (h : InClosedRange m log t₁ t₂ r) :
    r.bin ∈ rangeBins (timeBounds 0 0 constraints).1 (timeBounds 0 0 constraints).2 log.bins ∧
      inSpan (timeBounds 0 0 constraints).1 (timeBounds 0 0 constraints).2 r = true := by
  have hzero : (0 : EventTime) ≤ r.time := UInt64.le_iff_toNat_le.mpr (Nat.zero_le _)
  obtain ⟨hstart, hstop⟩ := timeBounds_contain hzero
    ((hrange.admits_iff r.time.toNat).mpr ⟨h.lower, h.upper⟩)
  have hread : readTime r.time = r.time := if_pos (h.upper.trans_lt hrange.lt)
  refine ⟨mem_rangeBins_of_bounds h.mem hstart hstop, ?_⟩
  rw [inSpan, hread, Bool.and_eq_true, Bool.or_eq_true, decide_eq_true_eq, decide_eq_true_eq,
    decide_eq_true_eq]
  exact ⟨hstart, hstop.symm⟩

/-- After any history a query of a closed range is complete when the
optimization members let the range pass, and, rows being different, only then. -/
theorem genTable_range_complete {actions : List Action}
    (h : Stored sub (execAll p sub actions initial) log) {constraints : List Constraint} {t₁ t₂ : ℕ}
    (hrange : ClosedRange constraints t₁ t₂) (now now' : EventTime) :
    (RangePasses p sub (execAll p sub actions initial) log t₁ t₂ →
      CompleteRange p sub (execAll p sub actions initial) log t₁ t₂
        ((genTable p sub constraints now now').run (execAll p sub actions initial)).1) ∧
    (DistinctRows p sub.dbNamespace (execAll p sub actions initial).db log →
      CompleteRange p sub (execAll p sub actions initial) log t₁ t₂
        ((genTable p sub constraints now now').run (execAll p sub actions initial)).1 →
      RangePasses p sub (execAll p sub actions initial) log t₁ t₂) := by
  have hrows := fun row => mem_rows_iff (p := p) h (timeBounds 0 0 constraints).1
    (timeBounds 0 0 constraints).2 now' row
  rw [run_genTable_constrained hrange.ne_nil]
  constructor
  · intro hpass
    refine ⟨?_, ?_⟩
    · intro r row hr hrow
      obtain ⟨hbin, hspan⟩ := hr.visited hrange
      obtain ⟨hpasses, hlost⟩ := hpass r row hr hrow
      rw [hrows]
      exact ⟨r, mem_scanned.mpr ⟨hr.mem, hbin, hr.unexpired, hpasses⟩, hspan, hrow, hlost⟩
    · intro row hrow
      obtain ⟨r, hscan, -, hstored, -⟩ := (hrows row).mp hrow
      exact ⟨r, (mem_scanned.mp hscan).1, hstored⟩
  · intro hdistinct hcomplete r row hr hrow
    obtain ⟨r', hscan, -, hrow', hlost⟩ := (hrows row).mp (hcomplete.complete r row hr hrow)
    obtain ⟨hmem, -, -, hpasses⟩ := mem_scanned.mp hscan
    obtain rfl := hdistinct r hr.mem r' hmem row hrow hrow'
    exact ⟨hpasses, hlost⟩

/-! ### A range before and after a scheduled query -/

/-- The constraints of a closed range. -/
def rangeConstraints (t₁ t₂ : ℕ) : List Constraint :=
  [⟨.greaterThanOrEquals, toText t₁⟩, ⟨.lessThanOrEquals, toText t₂⟩]

theorem closedRange_rangeConstraints {t₁ t₂ : ℕ} (hpos : 0 < t₁) (hle : t₁ ≤ t₂)
    (hlt : t₂ < 2 ^ 63) : ClosedRange (rangeConstraints t₁ t₂) t₁ t₂ := by
  refine ⟨hpos, hle, fun t => ⟨?_, ?_⟩⟩
  · intro h
    obtain ⟨n, -, hn, hlow⟩ := h ⟨.greaterThanOrEquals, toText t₁⟩ (by simp [rangeConstraints])
    obtain ⟨m, -, hm, hhigh⟩ := h ⟨.lessThanOrEquals, toText t₂⟩ (by simp [rangeConstraints])
    obtain rfl := toText_inj.mp hn
    obtain rfl := toText_inj.mp hm
    exact ⟨hlow, hhigh⟩
  · rintro ⟨hlow, hhigh⟩ c hc
    rcases List.mem_pair.mp hc with rfl | rfl
    · exact ⟨t₁, by omega, rfl, hlow⟩
    · exact ⟨t₂, hlt, rfl, hhigh⟩

/-- An event is added. -/
theorem execAll_addBatch (p : Process) (sub : Subscriber) (rows : List Row)
    (custom now : EventTime) (s : State) :
    execAll p sub [.addBatch rows custom now] s = ((addBatch p sub rows custom now).run s).2 := rfl

/-- A scheduled query starts and scans. -/
theorem execAll_scheduledScan (p : Process) (sub : Subscriber) (actions : List Action) (q : String)
    (now now' : EventTime) (s : State) :
    execAll p sub (actions ++ [.recordQueryStart q, .genTable [] now now']) s =
      ((scheduledScan p sub q now now').run (execAll p sub actions s)).2 := by
  rw [execAll, List.foldl_append, scheduledScan, Prog.run_bind]
  rfl

/-- One event is added. -/
def rangeActions : List Action := [.addBatch [sampleRow "a"] 0 100]

/-- One event is added and read by a scheduled query. -/
def readActions : List Action := rangeActions ++ [.recordQueryStart "q", .genTable [] 100 100]

theorem rangeActions_timeline : Timeline sampleProcess sampleSubscriber ⟨∅, {}⟩
    [.addBatch [sampleRow "a"] 0 100]
    (execAll sampleProcess sampleSubscriber rangeActions initial) 100 := by
  have h₀ : Timeline sampleProcess sampleSubscriber ⟨∅, {}⟩ [] ⟨∅, {}⟩ 100 :=
    .nil (by decide) (by decide)
  rw [rangeActions, execAll_addBatch, initial]
  exact h₀.addBatch [sampleRow "a"] 0 100 (by decide)
    (by decide) (by decide) (by decide +kernel) (by decide)

theorem readActions_timeline : Timeline sampleProcess sampleSubscriber ⟨∅, {}⟩
    [.addBatch [sampleRow "a"] 0 100, .query "q" 100 100]
    (execAll sampleProcess sampleSubscriber readActions initial) 100 := by
  rw [readActions, execAll_scheduledScan]
  exact rangeActions_timeline.query "q" 100 100 (by decide) (by decide)
    (by decide) (by decide) (by decide +kernel)

/-- The event of the sample actions. -/
def sampleEvent : Event := ⟨sampleRow "a", 100, 1⟩

/-- After the sample actions the one event is stored. -/
theorem sample_stored {steps : List Step} {ops : List (Op String Event)} (hsteps : feed steps = ops)
    (hops : published ops = [sampleEvent]) {clock : EventTime}
    (h : Timeline sampleProcess sampleSubscriber ⟨∅, {}⟩ steps s clock) :
    ∃ log, Stored sampleSubscriber s log ∧ log.records = [⟨1, 100⟩] ∧
      rowAt sampleProcess sampleSubscriber.dbNamespace s.db ⟨1, 100⟩ = some sampleEvent.yielded := by
  obtain ⟨log, hlog⟩ := h.follows rfl rfl ⟨rfl, rfl, rfl⟩
  rw [hsteps] at hlog
  have hrecords := hlog.records
  have hcontents := hlog.contents sampleEvent (by rw [hops]; exact List.mem_singleton_self _)
  rw [hops] at hrecords
  refine ⟨log, hlog.onClock.stored, hrecords, ?_⟩
  rw [rowAt, show toIndex (Record.mk 1 100).eid = toIndex sampleEvent.eid from rfl, hcontents,
    rowOf_content]

/-- Before a scheduled query has read it, the event is in the range. -/
theorem genTable_range_complete_fresh :
    ∃ log, Stored sampleSubscriber (execAll sampleProcess sampleSubscriber rangeActions initial) log ∧
      CompleteRange sampleProcess sampleSubscriber
        (execAll sampleProcess sampleSubscriber rangeActions initial) log 50 150
        ((genTable sampleProcess sampleSubscriber (rangeConstraints 50 150) 100 100).run
          (execAll sampleProcess sampleSubscriber rangeActions initial)).1 := by
  obtain ⟨log, hstored, hrecords, -⟩ := sample_stored rfl rfl rangeActions_timeline
  refine ⟨log, hstored, (genTable_range_complete hstored
    (closedRange_rangeConstraints (by decide) (by decide) (by decide)) 100 100).1 ?_⟩
  intro r row hr _
  have hmem := hr.mem
  rw [hrecords, List.mem_singleton] at hmem
  subst hmem
  refine ⟨by decide +kernel, ?_⟩
  rintro ⟨b, hb, hexp, -⟩
  obtain ⟨r, hr', rfl⟩ := (mem_keys Record.bin).mp hb
  rw [hrecords, List.mem_singleton] at hr'
  subst hr'
  exact absurd hexp (by decide +kernel)

/-- After a scheduled query has read it, a query of its time range misses the
stored event. -/
theorem genTable_range_incomplete :
    ¬∀ (p : Process) (sub : Subscriber) (actions : List Action) (log : EventLog)
      (constraints : List Constraint) (t₁ t₂ : ℕ) (now now' : EventTime),
        Stored sub (execAll p sub actions initial) log → ClosedRange constraints t₁ t₂ →
          CompleteRange p sub (execAll p sub actions initial) log t₁ t₂
            ((genTable p sub constraints now now').run (execAll p sub actions initial)).1 := by
  intro h
  obtain ⟨log, hstored, hrecords, hrow⟩ := sample_stored rfl rfl readActions_timeline
  have hcomplete := h sampleProcess sampleSubscriber readActions log (rangeConstraints 50 150) 50 150
    100 100 hstored (closedRange_rangeConstraints (by decide) (by decide) (by decide))
  have hempty : ((genTable sampleProcess sampleSubscriber (rangeConstraints 50 150) 100 100).run
      (execAll sampleProcess sampleSubscriber readActions initial)).1.length = 0 := by
    decide +kernel
  have hrange : InClosedRange (execAll sampleProcess sampleSubscriber readActions initial).members
      log 50 150 ⟨1, 100⟩ :=
    ⟨by rw [hrecords]; exact List.mem_singleton_self _, by decide, by decide, by decide +kernel⟩
  have hmem := hcomplete.complete _ _ hrange hrow
  rw [List.length_eq_zero_iff.mp hempty] at hmem
  exact absurd hmem List.not_mem_nil

end Osquery.EventSubscribers
