import Osquery.EventSubscribers.Delivery

/-!
# Repeated scans in one execution

A query may scan the table of a subscriber several times, as in a self join.
Every scan starts at the position that the one before it saved, so the scans
agree when there is nothing for the query to read, and on a clock that does not
go back they agree in no other case.
-/

namespace Osquery.EventSubscribers

open Foundation.AtomicProgram Foundation.JsonText Foundation.Numeral Foundation.Separated
open Foundation.Grouping Foundation.Feed Core.BackingStore Core.Conversions Core.Rows

variable {p : Process} {sub : Subscriber} {s : State} {log : EventLog}

/-- Scans without a time constraint; each reads the clock at its start and at
its end. -/
def repeatedScans (p : Process) (sub : Subscriber) :
    List (EventTime × EventTime) → Prog Access (List (List Row))
  | [] => pure []
  | clock :: rest => do
      let rows ← genTable p sub [] clock.1 clock.2
      let more ← repeatedScans p sub rest
      return rows :: more

/-- One execution of a scheduled query that scans the subscriber repeatedly. -/
def execution (p : Process) (sub : Subscriber) (name : String)
    (clocks : List (EventTime × EventTime)) : Prog Access (List (List Row)) := do
  let _ ← setDatabaseValue kPersistentSettings kExecutingQuery name
  repeatedScans p sub clocks

/-- Every scan yields what the first one yields. -/
def Agree (outputs : List (List Row)) : Prop := ∀ rows ∈ outputs, outputs.head? = some rows

/-- The clock does not go back between scans and is not zero. -/
structure Ticks (clocks : List (EventTime × EventTime)) : Prop where
  mono : clocks.Pairwise fun a b => a.1 ≤ b.1
  positive : ∀ c ∈ clocks, 1 ≤ c.1
  lt : ∀ c ∈ clocks, c.1.toNat < 2 ^ 63

/-- The query has read every record that its scan would visit. -/
def NothingUnread (p : Process) (q : String) (now : EventTime) (s : State) (log : EventLog) :
    Prop :=
  ∀ r ∈ log.records, expires (scanMembers q now s) r.bin = false →
    r.bin ∈ rangeBins (storedPosition s.db q).1 0 log.bins →
      passes p (scanMembers q now s) true r = false

/-! ### The marker stays -/

/-- Writing a value that is there changes nothing. -/
theorem setValue_eq_self {db : Database} {d key value : String}
    (h : lookup db d key = some value) : Ephemeral.setValue db d key value = db := by
  have hdomain : (Ephemeral.domainOf db d).insert key value = Ephemeral.domainOf db d := by
    apply Std.ExtTreeMap.ext_getElem?
    intro k
    rw [Std.ExtTreeMap.getElem?_insert]
    split
    · rename_i heq
      rw [← Std.compare_eq_iff_eq.mp heq]
      exact h.symm
    · rfl
  have hpresent : db[d]? = some (Ephemeral.domainOf db d) := by
    rw [lookup, Ephemeral.domainOf, Std.ExtTreeMap.getD_eq_getD_getElem?] at h
    rw [Ephemeral.domainOf, Std.ExtTreeMap.getD_eq_getD_getElem?]
    cases hd : db[d]? with
    | none => simp [hd] at h
    | some content => rfl
  apply Std.ExtTreeMap.ext_getElem?
  intro d'
  rw [Ephemeral.setValue, hdomain, Std.ExtTreeMap.getElem?_insert]
  split
  · rename_i heq
    rw [← Std.compare_eq_iff_eq.mp heq]
    exact hpresent.symm
  · rfl

/-- The query is executing. -/
def IsExecuting (q : String) (s : State) : Prop :=
  lookup s.db kPersistentSettings kExecutingQuery = some q

theorem genTable_of_isExecuting (p : Process) (sub : Subscriber) {q : String}
    (h : IsExecuting q s) (now now' : EventTime) :
    (genTable p sub [] now now').run s = (scheduledScan p sub q now now').run s := by
  have hmark : (setDatabaseValue kPersistentSettings kExecutingQuery q : Prog Access _).run s =
      (.ok (), ⟨markExecuting s.db q, s.members⟩) := rfl
  rw [scheduledScan, Prog.run_bind, hmark, markExecuting, setValue_eq_self h]

/-! ### Scans with nothing to read -/

theorem scanned_eq_nil {q : String} {now : EventTime} (h : NothingUnread p q now s log) :
    scanned p (scanMembers q now s) (storedPosition s.db q).1 0 log = [] := by
  rw [scanned, List.flatMap_eq_nil_iff]
  intro b hb
  rw [List.filter_eq_nil_iff]
  intro r hr
  obtain ⟨hmem, rfl⟩ := (mem_group Record.bin).mp hr
  obtain ⟨hlog, hkept⟩ := List.mem_filter.mp hmem
  rw [h r hlog (by simpa using hkept) hb]
  exact Bool.false_ne_true

theorem mem_rangeBins {start : EventTime} {bs : List ℕ} {b : ℕ} :
    b ∈ rangeBins start 0 bs ↔ b ∈ bs ∧ (if start > 0 then start / 60 else 0) ≤ UInt64.ofNat b := by
  rw [rangeBins, List.mem_insertionSort, List.mem_filter, inRange]
  simp

theorem rangeStart_mono {start start' : EventTime} (h : start ≤ start') :
    (if start > 0 then start / 60 else 0) ≤ if start' > 0 then start' / 60 else 0 := by
  have hdiv : start / 60 ≤ start' / 60 := by
    rw [UInt64.le_iff_toNat_le, UInt64.toNat_div, UInt64.toNat_div]
    exact Nat.div_le_div_right (UInt64.le_iff_toNat_le.mp h)
  by_cases hpos : start > 0
  · rw [if_pos hpos, if_pos (UInt64.lt_of_lt_of_le hpos h)]
    exact hdiv
  · rw [if_neg hpos]
    exact UInt64.le_iff_toNat_le.mpr (Nat.zero_le _)

theorem le_sub_one {time now : EventTime} (h : time < now) : time ≤ now - 1 := by
  have h1 : (1 : UInt64).toNat = 1 := rfl
  have hlt := UInt64.lt_iff_toNat_lt.mp h
  have hone : 1 ≤ now := by
    rw [UInt64.le_iff_toNat_le, h1]
    omega
  rw [UInt64.le_iff_toNat_le, UInt64.toNat_sub_of_le _ _ hone, h1]
  omega

theorem sub_one_toNat_lt {time now : EventTime} (h : time < now) (hlt : now.toNat < 2 ^ 63) :
    (now - 1).toNat < 2 ^ 63 := by
  have hone : 1 ≤ now := by
    rw [UInt64.le_iff_toNat_le]
    exact Nat.one_le_iff_ne_zero.mpr (Nat.ne_zero_of_lt (UInt64.lt_iff_toNat_lt.mp h))
  exact lt_trans (UInt64.lt_iff_toNat_lt.mp (sub_one_lt hone (UInt64.le_refl now))) hlt

/-- The query still executes after its scan. -/
theorem isExecuting_scan (hd : p.isDaemon = true) (ho : p.eventsOptimize = true)
    (h : Stored sub s log) (q : String) (now now' : EventTime) :
    IsExecuting q ((scheduledScan p sub q now now').run s).2 := by
  have hdomain : kPersistentSettings ≠ kEvents := by decide
  obtain ⟨db₁, hexp, hrun⟩ := run_scan hd ho h q now now'
  rw [hrun, IsExecuting, agreesExcept_savePosition db₁ _ _ _ _ fun hk => hdomain hk.1,
    hexp.kept _ _ fun hk => hdomain hk.1, markExecuting, lookup_setValue, if_pos ⟨rfl, rfl⟩]

theorem passes_scanMembers_iff (ho : p.eventsOptimize = true) {q : String} {now : EventTime}
    {r : Record} :
    passes p (scanMembers q now s) true r = false ↔
      readTime r.time ≤ now ∧ readEid r.eid ≤ (storedPosition s.db q).2 := by
  rw [passes, scanMembers_optimizeTime, scanMembers_optimizeEid, UInt64.sub_add_cancel]
  simp only [ho, Bool.and_true, Bool.true_and, Bool.not_eq_false', Bool.and_eq_true,
    decide_eq_true_eq]

/-- A scan of a query with nothing to read yields nothing and leaves nothing to
read for its later scans. -/
theorem quiet_scan (hd : p.isDaemon = true) (ho : p.eventsOptimize = true) (h : Stored sub s log)
    {q : String} (hq : q ≠ "") {now : EventTime} (hunread : NothingUnread p q now s log)
    (hbehind : (storedPosition s.db q).1 < now) (hlt : now.toNat < 2 ^ 63) (now' : EventTime) :
    ((scheduledScan p sub q now now').run s).1 = [] ∧
      (storedPosition ((scheduledScan p sub q now now').run s).2.db q).1 = now - 1 ∧
      ∀ next, now ≤ next → NothingUnread p q next ((scheduledScan p sub q now now').run s).2
        (log.expire (scanMembers q now s)) := by
  have hnil := scanned_eq_nil hunread
  have hpos : storedPosition ((scheduledScan p sub q now now').run s).2.db q =
      (now - 1, (storedPosition s.db q).2) := by
    rw [storedPosition_scan hd ho h hq (sub_one_toNat_lt hbehind hlt), if_pos rfl, hnil]
    rfl
  refine ⟨?_, congrArg Prod.fst hpos, ?_⟩
  · obtain ⟨db₁, -, hrun⟩ := run_scan hd ho h q now now'
    rw [hrun, hnil]
    rfl
  · intro next hnext r hr _ hrange
    obtain ⟨hlog, hkept⟩ := List.mem_filter.mp hr
    rw [hpos, mem_rangeBins] at hrange
    have hin : r.bin ∈ rangeBins (storedPosition s.db q).1 0 log.bins := by
      rw [mem_rangeBins]
      exact ⟨(mem_keys Record.bin).mpr ⟨r, hlog, rfl⟩,
        UInt64.le_trans (rangeStart_mono (le_sub_one hbehind)) hrange.2⟩
    have hfails := (passes_scanMembers_iff ho).mp (hunread r hlog (by simpa using hkept) hin)
    rw [passes_scanMembers_iff ho, congrArg Prod.snd hpos]
    exact ⟨UInt64.le_trans hfails.1 hnext, hfails.2⟩

/-- With nothing to read, all scans of an execution yield nothing. -/
theorem quiet_scans (hd : p.isDaemon = true) (ho : p.eventsOptimize = true) (h : Stored sub s log)
    {q : String} (hq : q ≠ "") (hexec : IsExecuting q s) {clocks : List (EventTime × EventTime)}
    (hclocks : Ticks clocks)
    (hunread : ∀ c ∈ clocks, NothingUnread p q c.1 s log)
    (hbehind : ∀ c ∈ clocks, (storedPosition s.db q).1 < c.1) :
    ∀ rows ∈ ((repeatedScans p sub clocks).run s).1, rows = [] := by
  induction clocks generalizing s log with
  | nil => simp [repeatedScans]
  | cons c rest ih =>
      obtain ⟨hle, hmono⟩ := List.pairwise_cons.mp hclocks.mono
      have hfirst := List.mem_cons_self (a := c) (l := rest)
      obtain ⟨hrows, hpos, hnext⟩ := quiet_scan hd ho h hq (hunread c hfirst) (hbehind c hfirst)
        (hclocks.lt c hfirst) c.2
      have hrest := ih (stored_scan hd ho h q c.1 c.2) (isExecuting_scan hd ho h q c.1 c.2)
        ⟨hmono, fun d hd => hclocks.positive d (List.mem_cons_of_mem _ hd),
          fun d hd => hclocks.lt d (List.mem_cons_of_mem _ hd)⟩
        (fun d hd => hnext d.1 (hle d hd))
        (by
          intro d hd
          rw [hpos]
          exact UInt64.lt_of_lt_of_le (sub_one_lt (hclocks.positive c hfirst) (UInt64.le_refl _))
            (hle d hd))
      rw [repeatedScans, Prog.run_bind, genTable_of_isExecuting p sub hexec, Prog.run_bind]
      intro rows hmem
      rcases List.mem_cons.mp hmem with rfl | hmem
      · exact hrows
      · exact hrest rows hmem

theorem NothingUnread.mono (ho : p.eventsOptimize = true) {q : String} {now next : EventTime}
    (h : NothingUnread p q now s log) (hle : now ≤ next) : NothingUnread p q next s log := by
  intro r hr hexp hrange
  have hfails := (passes_scanMembers_iff ho).mp (h r hr hexp hrange)
  exact (passes_scanMembers_iff ho).mpr ⟨UInt64.le_trans hfails.1 hle, hfails.2⟩

/-- The first scan of an execution is the scan of a scheduled query. -/
theorem run_execution_cons (q : String) (c : EventTime × EventTime)
    (clocks : List (EventTime × EventTime)) (s : State) :
    ((execution p sub q (c :: clocks)).run s).1 =
      ((scheduledScan p sub q c.1 c.2).run s).1 ::
        ((repeatedScans p sub clocks).run ((scheduledScan p sub q c.1 c.2).run s).2).1 := by
  have hmark : (setDatabaseValue kPersistentSettings kExecutingQuery q : Prog Access _).run s =
      (.ok (), ⟨markExecuting s.db q, s.members⟩) := rfl
  have hscan : (scheduledScan p sub q c.1 c.2).run s =
      (genTable p sub [] c.1 c.2).run ⟨markExecuting s.db q, s.members⟩ := by
    rw [scheduledScan, Prog.run_bind, hmark]
  rw [execution, Prog.run_bind, hmark, repeatedScans, Prog.run_bind, Prog.run_bind, hscan]
  rfl

theorem Ticks.tail {c : EventTime × EventTime} {clocks : List (EventTime × EventTime)}
    (h : Ticks (c :: clocks)) : Ticks clocks :=
  ⟨(List.pairwise_cons.mp h.mono).2, fun d hd => h.positive d (List.mem_cons_of_mem _ hd),
    fun d hd => h.lt d (List.mem_cons_of_mem _ hd)⟩

/-- When the first scan leaves nothing to read, the later ones yield nothing. -/
theorem later_scans_empty (hd : p.isDaemon = true) (ho : p.eventsOptimize = true)
    (h : Stored sub s log) {q : String} (hq : q ≠ "") {c : EventTime × EventTime}
    {clocks : List (EventTime × EventTime)} (hclocks : Ticks (c :: clocks))
    (hunread : NothingUnread p q c.1 ((scheduledScan p sub q c.1 c.2).run s).2
      (log.expire (scanMembers q c.1 s))) :
    ∀ rows ∈ ((repeatedScans p sub clocks).run ((scheduledScan p sub q c.1 c.2).run s).2).1,
      rows = [] := by
  have hle := (List.pairwise_cons.mp hclocks.mono).1
  have hfirst := List.mem_cons_self (a := c) (l := clocks)
  have hlt := sub_one_lt (hclocks.positive c hfirst) (UInt64.le_refl c.1)
  refine quiet_scans hd ho (stored_scan hd ho h q c.1 c.2) hq (isExecuting_scan hd ho h q c.1 c.2)
    hclocks.tail (fun d hd => hunread.mono ho (hle d hd)) ?_
  intro d hd
  rw [storedPosition_scan ‹_› ho h hq (sub_one_toNat_lt hlt (hclocks.lt c hfirst)), if_pos rfl]
  exact UInt64.lt_of_lt_of_le hlt (hle d hd)

theorem agree_of_forall_nil {outputs : List (List Row)} (h : ∀ rows ∈ outputs, rows = []) :
    Agree outputs := by
  cases outputs with
  | nil =>
      intro rows hrows
      exact absurd hrows List.not_mem_nil
  | cons first rest =>
      intro rows hrows
      rw [h rows hrows, List.head?_cons, h first List.mem_cons_self]

/-- Scans of an execution that finds nothing to read agree. -/
theorem execution_agree_of_nothingUnread (hd : p.isDaemon = true) (ho : p.eventsOptimize = true)
    (h : Stored sub s log) {q : String} (hq : q ≠ "") {c : EventTime × EventTime}
    {clocks : List (EventTime × EventTime)} (hclocks : Ticks (c :: clocks))
    (hbehind : (storedPosition s.db q).1 < c.1) (hunread : NothingUnread p q c.1 s log) :
    Agree ((execution p sub q (c :: clocks)).run s).1 := by
  have hlt := hclocks.lt c List.mem_cons_self
  obtain ⟨hrows, -, hnext⟩ := quiet_scan hd ho h hq hunread hbehind hlt c.2
  apply agree_of_forall_nil
  rw [run_execution_cons]
  intro rows hmem
  rcases List.mem_cons.mp hmem with rfl | hmem
  · exact hrows
  · exact later_scans_empty hd ho h hq hclocks (hnext c.1 (UInt64.le_refl _)) rows hmem

/-- On the clock a scan leaves nothing to read. -/
theorem OnClock.nothingUnread_scan (hd : p.isDaemon = true) (ho : p.eventsOptimize = true)
    {clock now : EventTime} (h : OnClock sub s log clock) {q : String} (hq : q ≠ "")
    (hpos : 1 ≤ clock) (hle : clock ≤ now) (hlt : now.toNat < 2 ^ 63) (now' : EventTime) :
    NothingUnread p q now ((scheduledScan p sub q now now').run s).2
      (log.expire (scanMembers q now s)) := by
  have horder : InOrder (log.expire (scanMembers q now s)) now :=
    (h.inOrder.mono hle hlt).keep _
  have htime : (now - 1).toNat < 2 ^ 63 :=
    lt_trans (UInt64.lt_iff_toNat_lt.mp (sub_one_lt hpos hle)) hlt
  intro r hr _ _
  rw [horder.passes_eq ho (scanMembers_optimizeTime _ _ _) hr, scanMembers_optimizeEid,
    storedPosition_scan hd ho h.stored hq htime, if_pos rfl, h.scanned_eq ho hq hle hlt,
    decide_eq_false_iff_not, not_lt]
  exact le_lastPosition ho horder _ hr

/-- On the clock the scans of an execution agree exactly when nothing is due to
the query. -/
theorem Follows.agree_iff {ops : List (Op String Event)} {clock : EventTime}
    (hd : p.isDaemon = true) (ho : p.eventsOptimize = true) (h : Follows p sub ops s log clock)
    {q : String} (hq : q ≠ "") {c c' : EventTime × EventTime}
    {clocks : List (EventTime × EventTime)} (hclocks : Ticks (c :: c' :: clocks))
    (hclock : clock ≤ c.1)
    (hkeep : ExpiresNothing sub.dbNamespace (scanMembers q c.1 s) s.db) :
    Agree ((execution p sub q (c :: c' :: clocks)).run s).1 ↔ due q ops = [] := by
  have hlt := hclocks.lt c List.mem_cons_self
  have hlater := later_scans_empty hd ho h.onClock.stored hq hclocks
    (h.onClock.nothingUnread_scan hd ho hq h.positive hclock hlt c.2)
  have hfirst := h.scan_rows hd ho hq hclock hlt c.2 hkeep
  rw [run_execution_cons, hfirst]
  constructor
  · intro hagree
    have hmem : [] ∈ (due q ops).map Event.yielded ::
        ((repeatedScans p sub (c' :: clocks)).run
          ((scheduledScan p sub q c.1 c.2).run s).2).1 := by
      rw [repeatedScans, Prog.run_bind, Prog.run_bind] at hlater ⊢
      have hsecond := hlater _ List.mem_cons_self
      rw [← hsecond]
      exact List.mem_cons_of_mem _ List.mem_cons_self
    have heq := hagree [] hmem
    simpa using heq
  · intro hdue
    apply agree_of_forall_nil
    intro rows hmem
    rcases List.mem_cons.mp hmem with rfl | hmem
    · rw [hdue]
      rfl
    · exact hlater rows hmem

/-- After any history the scans of an execution that finds nothing to read
agree; on a clock that does not go back they agree only if no event was added
since the last run of the query. -/
theorem execution_scans_agree (p : Process) (sub : Subscriber) (hd : p.isDaemon = true)
    (ho : p.eventsOptimize = true) {q : String} (hq : q ≠ "") :
    (∀ (actions : List Action) (log : EventLog) (c : EventTime × EventTime)
        (clocks : List (EventTime × EventTime)),
      Stored sub (execAll p sub actions initial) log → Ticks (c :: clocks) →
      (storedPosition (execAll p sub actions initial).db q).1 < c.1 →
      NothingUnread p q c.1 (execAll p sub actions initial) log →
        Agree ((execution p sub q (c :: clocks)).run (execAll p sub actions initial)).1) ∧
    ∀ (start s : State) (steps : List Step) (clock : EventTime) (c c' : EventTime × EventTime)
        (clocks : List (EventTime × EventTime)),
      Fresh start → Timeline p sub start steps s clock → Ticks (c :: c' :: clocks) →
      clock ≤ c.1 → ExpiresNothing sub.dbNamespace (scanMembers q c.1 s) s.db →
        (Agree ((execution p sub q (c :: c' :: clocks)).run s).1 ↔ due q (feed steps) = []) := by
  constructor
  · intro actions log c clocks h hclocks hbehind hunread
    exact execution_agree_of_nothingUnread hd ho h hq hclocks hbehind hunread
  · intro start s steps clock c c' clocks hstart h hclocks hclock hkeep
    obtain ⟨log, hlog⟩ := h.follows hd ho hstart
    exact hlog.agree_iff hd ho hq hclocks hclock hkeep

theorem ticks_pair {c c' : EventTime × EventTime} (hle : c.1 ≤ c'.1) (hpos : 1 ≤ c.1)
    (hlt : c'.1.toNat < 2 ^ 63) : Ticks [c, c'] := by
  refine ⟨List.pairwise_pair.mpr hle, ?_, ?_⟩
  · intro d hd
    rcases List.mem_pair.mp hd with rfl | rfl
    · exact hpos
    · exact UInt64.le_trans hpos hle
  · intro d hd
    rcases List.mem_pair.mp hd with rfl | rfl
    · exact (UInt64.le_iff_toNat_le.mp hle).trans_lt hlt
    · exact hlt

/-- Two scans of a new subscriber agree, and two scans after the sample history do not. -/
theorem execution_scans_agree_twice :
    Agree ((execution sampleProcess sampleSubscriber "q" [(100, 100), (100, 101)]).run initial).1 ∧
    ¬Agree ((execution sampleProcess sampleSubscriber "q" [(100, 100), (100, 101)]).run
      sampleState).1 := by
  have hticks : Ticks [((100 : EventTime), (100 : EventTime)), (100, 101)] :=
    ticks_pair (by decide) (by decide) (by decide)
  obtain ⟨hquiet, hclocked⟩ := execution_scans_agree sampleProcess sampleSubscriber (q := "q")
    rfl rfl (by decide)
  constructor
  · refine hquiet [] EventLog.empty _ _ (stored_initial _) hticks (by decide +kernel) ?_
    intro r hr
    exact absurd hr List.not_mem_nil
  · rw [hclocked ⟨∅, {}⟩ sampleState sampleSteps 100 _ _ _ ⟨rfl, rfl, rfl⟩ sample_timeline hticks
      (by decide) sample_expiresNothing]
    intro hdue
    have hlen := congrArg List.length hdue
    exact absurd hlen (by decide +kernel)

/-- A query that scans the table twice gets an event from the first scan only. -/
theorem repeated_scans_disagree :
    ¬∀ (p : Process) (sub : Subscriber) (actions : List Action) (q : String)
      (c c' : EventTime × EventTime), p.isDaemon = true → p.eventsOptimize = true → q ≠ "" →
        Ticks [c, c'] →
          Agree ((execution p sub q [c, c']).run (execAll p sub actions initial)).1 := by
  intro h
  have hagree := h sampleProcess sampleSubscriber [.addBatch [sampleRow "a"] 0 100] "q" (100, 100)
    (100, 100) rfl rfl (by decide) (ticks_pair (by decide) (by decide) (by decide))
  have hlengths : (((execution sampleProcess sampleSubscriber "q" [(100, 100), (100, 100)]).run
      (execAll sampleProcess sampleSubscriber [.addBatch [sampleRow "a"] 0 100] initial)).1).map
        List.length = [1, 0] := by decide +kernel
  generalize ((execution sampleProcess sampleSubscriber "q" [(100, 100), (100, 100)]).run
      (execAll sampleProcess sampleSubscriber [.addBatch [sampleRow "a"] 0 100] initial)).1 =
        outputs at hagree hlengths
  obtain ⟨first, second, rfl⟩ : ∃ first second, outputs = [first, second] :=
    List.length_eq_two.mp (by simpa using congrArg List.length hlengths)
  have heq : some first = some second := hagree second (by simp)
  rw [Option.some.injEq] at heq
  subst heq
  simp only [List.map_cons, List.map_nil, List.cons.injEq, and_true] at hlengths
  omega

end Osquery.EventSubscribers
