import Osquery.EventSubscribers.RepeatedScans
import Osquery.EventSubscribers.TimeRange

/-!
# A query that reads two subscribers

The position of a query is stored under its name only, so a scan of one
subscriber overwrites the position from which the same query reads another one.
Next to the run of a query over two subscribers stands the run in which it
reads the second one alone, with the same events and the same clock: both
stores of the second subscriber stay equal, and the yields differ exactly where
the two positions select different events.
-/

namespace Osquery.EventSubscribers

open Foundation.AtomicProgram Foundation.JsonText Foundation.Numeral Foundation.Separated
open Foundation.Grouping Foundation.Feed Core.BackingStore Core.Conversions Core.Rows

variable {p : Process} {sub : Subscriber} {s : State} {log : EventLog}

/-! ### The keys of a subscriber -/

/-- The keys under which a subscriber stores its events. -/
def Owned (ns key : String) : Prop :=
  key = eidKey ns ∨ IsIndex ns key ∨ ∃ n, key = dataKey ns (toIndex n)

private theorem dot_not_mem_toText (n : ℕ) : '.' ∉ (toText n).toList := fun h =>
  absurd (isDigit_of_mem_toText h) (by decide)

private theorem dot_not_mem_toIndex (n : ℕ) : '.' ∉ (toIndex n).toList := fun h =>
  absurd (isDigit_of_mem_padded h) (by decide)

/-- The part before the last dot of two equal texts is the same. -/
private theorem append_dot_inj {x y a b : List Char} (ha : '.' ∉ a) (hb : '.' ∉ b)
    (h : x ++ '.' :: a = y ++ '.' :: b) : x = y := by
  have hdrop : ∀ x a : List Char, '.' ∉ a →
      (x ++ '.' :: a).reverse.dropWhile (· ≠ '.') = '.' :: x.reverse := by
    intro x a ha
    have hall : ∀ c ∈ a.reverse, decide (c ≠ '.') = true := by
      intro c hc
      rw [decide_eq_true_eq]
      rintro rfl
      exact ha (List.mem_reverse.mp hc)
    rw [List.reverse_append, List.reverse_cons, List.append_assoc,
      List.dropWhile_append_of_pos hall]
    rfl
  have hr : '.' :: x.reverse = '.' :: y.reverse := by rw [← hdrop x a ha, h, hdrop y b hb]
  exact List.reverse_injective (List.cons.inj hr).2

theorem dataKey_ns_inj {ns ns' : String} {n m : ℕ}
    (h : dataKey ns (toIndex n) = dataKey ns' (toIndex m)) : ns = ns' := by
  have hl : ns.toList ++ '.' :: (toIndex n).toList = ns'.toList ++ '.' :: (toIndex m).toList := by
    simpa [dataKey] using congrArg String.toList h
  exact String.toList_inj.mp
    (append_dot_inj (dot_not_mem_toIndex n) (dot_not_mem_toIndex m) hl)

theorem recordKey_ns_inj {ns ns' : String} {b b' : ℕ}
    (h : recordKey ns (toText b) = recordKey ns' (toText b')) : ns = ns' := by
  have hl : (ns.toList ++ ['.', '6', '0']) ++ '.' :: (toText b).toList =
      (ns'.toList ++ ['.', '6', '0']) ++ '.' :: (toText b').toList := by
    simpa [recordKey] using congrArg String.toList h
  exact String.toList_inj.mp (List.append_cancel_right
    (append_dot_inj (dot_not_mem_toText b) (dot_not_mem_toText b') hl))

theorem indexKey_ns_inj {ns ns' : String} (h : indexKey ns = indexKey ns') : ns = ns' := by
  have hl : ns.toList ++ ['.', '6', '0'] = ns'.toList ++ ['.', '6', '0'] := by
    simpa [indexKey] using congrArg String.toList h
  exact String.toList_inj.mp (List.append_cancel_right hl)

/-- Different subscribers have no key in common. -/
theorem Owned.disjoint {ns ns' key : String} (hne : ns ≠ ns') (h : Owned ns key) :
    ¬Owned ns' key := by
  intro h'
  rcases h with rfl | hidx | ⟨n, rfl⟩
  · rcases h' with h' | h' | ⟨m, h'⟩
    · rw [eidKey, eidKey, String.append_right_inj] at h'
      exact hne h'
    · exact eidKey_not_event ns' ns (Or.inl h')
    · exact dataKey_ne_eidKey ns' ns _ h'.symm
  · rcases h' with rfl | h' | ⟨m, rfl⟩
    · exact eidKey_not_event ns ns' (Or.inl hidx)
    · rcases hidx with rfl | ⟨b, rfl⟩
      · rcases h' with h' | ⟨b', h'⟩
        · exact hne (indexKey_ns_inj h')
        · have hl := congrArg String.toList h'
          simp [indexKey, recordKey] at hl
      · rcases h' with h' | ⟨b', h'⟩
        · have hl := congrArg String.toList h'
          simp [indexKey, recordKey] at hl
        · exact hne (recordKey_ns_inj h')
    · exact dataKey_not_index ns ns' _ hidx
  · rcases h' with h' | h' | ⟨m, h'⟩
    · exact dataKey_ne_eidKey ns ns' _ h'
    · exact dataKey_not_index ns' ns _ h'
    · exact hne (dataKey_ns_inj h')

theorem Owned.not_position {ns key : String} (h : Owned ns key) : ¬IsPosition key := by
  intro hpos
  rcases h with rfl | hidx | ⟨n, rfl⟩
  · exact hpos.not_eid ns rfl
  · exact hpos.not_index hidx
  · exact dataKey_not_position ns _ hpos

/-- The values of a subscriber read as before. -/
def Untouched (ns : String) (db db' : Database) : Prop :=
  ∀ key, Owned ns key → valueAt db' key = valueAt db key

theorem Stored.untouched {db' : Database} (h : Stored sub s log)
    (hu : Untouched sub.dbNamespace s.db db') : Stored sub ⟨db', s.members⟩ log :=
  ⟨h.represents.of_valueAt (hu _ (Or.inr (Or.inl (Or.inl rfl))))
    fun b => hu _ (Or.inr (Or.inl (Or.inr ⟨b, rfl⟩))), h.bounded, h.wholeMinute⟩

theorem Ready.untouched {ns : String} {db' : Database} (h : Ready ns s)
    (hu : Untouched ns s.db db') : Ready ns ⟨db', s.members⟩ := by
  rcases h with h | h
  · exact Or.inl h
  · exact Or.inr ((hu _ (Or.inl rfl)).trans h)

/-! ### What a batch and a scan touch -/

/-- The state after a batch that does not overflow. -/
structure Extended (p : Process) (sub : Subscriber) (time : EventTime) (rows : List Row)
    (log log' : EventLog) (s s' : State) : Prop where
  stored : Stored sub s' log'
  records : log'.records = log.records ++
    recordsAt time ((numbered s.members.lastEid rows).map Prod.snd)
  lastEid : s'.members.lastEid = s.members.lastEid + rows.length
  ready : Ready sub.dbNamespace s'
  others : ∀ key, ¬Owned sub.dbNamespace key → valueAt s'.db key = valueAt s.db key
  data : ∀ n, valueAt s'.db (dataKey sub.dbNamespace (toIndex n)) =
    valueAt (Ephemeral.putBatch s.db kEvents
      (batchData p sub.dbNamespace time (numbered s.members.lastEid rows)))
        (dataKey sub.dbNamespace (toIndex n))

theorem batchData_owned {ns : String} {time : EventTime} {batch : Batch} :
    ∀ d ∈ batchData p ns time batch, Owned ns d.1 := by
  intro d hd
  obtain ⟨b, _, rfl⟩ := List.mem_map.mp hd
  exact Or.inr (Or.inr ⟨_, rfl⟩)

/-- What a batch writes does not depend on the other values. -/
theorem valueAt_putBatch_congr {db db' : Database} {key : String}
    (h : valueAt db' key = valueAt db key) (data : List (String × String)) :
    valueAt (Ephemeral.putBatch db' kEvents data) key =
      valueAt (Ephemeral.putBatch db kEvents data) key := by
  induction data generalizing db db' with
  | nil => exact h
  | cons d rest ih =>
      apply ih
      rw [valueAt_setValue, valueAt_setValue, h]

theorem extended_addBatch (h : Stored sub s log) (hready : Ready sub.dbNamespace s)
    (rows : List Row) (custom now : EventTime)
    (hroom : ¬Overflows sub (prepared p sub (eventTime custom now) rows s)) :
    ∃ log', Extended p sub (eventTime custom now) rows log log' s
      ((addBatch p sub rows custom now).run s).2 := by
  by_cases hne : rows = []
  · subst hne
    rw [run_addBatch_nil]
    refine ⟨log, h, ?_, rfl, hready, fun _ _ => rfl, fun _ => rfl⟩
    simp [recordsAt, numbered]
  · obtain ⟨db₁, hagree, hrun⟩ := run_addBatch_ready h.represents hready hne custom now hroom
    obtain ⟨log', hrecords, hgrown⟩ := grown_storedBatch (p := p) h hne hagree (eventTime custom now)
    rw [hrun]
    refine ⟨log', hgrown.stored, hrecords, rfl, ?_, ?_, ?_⟩
    · left
      have hlen := List.length_pos_of_ne_nil hne
      dsimp only
      omega
    · intro key hkey
      refine ((agreesExcept_putBatch _ _ _ recordData_isIndex).valueAt_eq
        fun hk => hkey (Or.inr (Or.inl hk))).trans ?_
      refine ((agreesExcept_putBatch _ _ _ batchData_owned).valueAt_eq hkey).trans ?_
      exact hagree.valueAt_eq fun hk => hkey (Or.inl hk)
    · intro n
      refine ((agreesExcept_putBatch _ _ _ recordData_isIndex).valueAt_eq
        (dataKey_not_index _ _ _)).trans (valueAt_putBatch_congr ?_ _)
      exact hagree.valueAt_eq (dataKey_ne_eidKey _ _ _)

/-- A position selects the records from its time on, except those that the
clock has passed and whose id is not after its id. -/
def selects (position : EventTime × UInt64) (now : EventTime) (r : Record) : Bool :=
  decide (position.1 ≤ readTime r.time) &&
    !(decide (readTime r.time ≤ now) && decide (readEid r.eid ≤ position.2))

/-- All bins in binning order. -/
def sortedBins (log : EventLog) : List ℕ := log.bins.insertionSort (· ≤ ·)

/-- The records that a position selects, in the order in which they are read. -/
def selected (position : EventTime × UInt64) (now : EventTime) (log : EventLog) : List Record :=
  (sortedBins log).flatMap fun b => (log.binRecords b).filter (selects position now)

theorem rangeBins_eq (start stop : EventTime) (bs : List ℕ) :
    rangeBins start stop bs = (bs.insertionSort (· ≤ ·)).filter fun b =>
      inRange (if start > 0 then start / 60 else 0) (if stop > 0 then stop / 60 + 1 else 0)
        (UInt64.ofNat b) := by
  apply List.Perm.eq_of_pairwise' (r := (· ≤ ·))
  · exact List.pairwise_insertionSort (· ≤ ·) _
  · exact (List.pairwise_insertionSort (· ≤ ·) _).filter _
  · exact (List.perm_insertionSort _ _).trans ((List.perm_insertionSort _ bs).symm.filter _)

theorem flatMap_filter_of_nil {α β : Type} {f : α → List β} {keep : α → Bool} (l : List α)
    (h : ∀ a ∈ l, keep a = false → f a = []) : (l.filter keep).flatMap f = l.flatMap f := by
  induction l with
  | nil => rfl
  | cons a rest ih =>
      have hrest := ih fun b hb => h b (List.mem_cons_of_mem _ hb)
      cases hk : keep a with
      | true => rw [List.filter_cons_of_pos hk, List.flatMap_cons, List.flatMap_cons, hrest]
      | false =>
          rw [List.filter_cons_of_neg (by simp [hk]), List.flatMap_cons, hrest,
            h a List.mem_cons_self hk, List.nil_append]

theorem readTime_le (t : EventTime) : readTime t ≤ t := by
  rw [readTime]
  split
  · exact UInt64.le_refl t
  · exact UInt64.le_iff_toNat_le.mpr (Nat.zero_le _)

/-- A scan without expiry reads the records that its position selects. -/
theorem scanned_eq_selected (ho : p.eventsOptimize = true) {q : String} {now : EventTime}
    (hlog : log.expire (scanMembers q now s) = log) :
    (scanned p (scanMembers q now s) (storedPosition s.db q).1 0 log).filter
        (inSpan (storedPosition s.db q).1 0) =
      selected (storedPosition s.db q) now log := by
  have hpass : ∀ r, (passes p (scanMembers q now s) true r &&
      inSpan (storedPosition s.db q).1 0 r) = selects (storedPosition s.db q) now r := by
    intro r
    rw [passes, inSpan, selects, scanMembers_optimizeTime, scanMembers_optimizeEid,
      UInt64.sub_add_cancel, ho, Bool.and_comm]
    simp
  have hfilter : ∀ b, ((log.binRecords b).filter (passes p (scanMembers q now s) true)).filter
      (inSpan (storedPosition s.db q).1 0) =
        (log.binRecords b).filter (selects (storedPosition s.db q) now) := by
    intro b
    rw [List.filter_filter]
    apply List.filter_congr
    intro r _
    rw [Bool.and_comm, hpass]
  rw [scanned, hlog, List.filter_flatMap, funext hfilter, rangeBins_eq, selected, sortedBins]
  apply flatMap_filter_of_nil
  intro b _ hout
  rw [List.filter_eq_nil_iff]
  intro r hr hsel
  obtain ⟨hmem, rfl⟩ := (mem_group Record.bin).mp hr
  rw [selects, Bool.and_eq_true, decide_eq_true_eq] at hsel
  have hin := inRange_bin (UInt64.le_trans hsel.1 (readTime_le r.time))
  rw [hout] at hin
  exact Bool.false_ne_true hin

/-- One scan without expiry. -/
theorem run_scan_selected (hd : p.isDaemon = true) (ho : p.eventsOptimize = true)
    (h : Stored sub s log) {q : String} {now : EventTime}
    (hkeep : ExpiresNothing sub.dbNamespace (scanMembers q now s) s.db) (now' : EventTime) :
    ((scheduledScan p sub q now now').run s).1 =
      (selected (storedPosition s.db q) now log).filterMap (rowAt p sub.dbNamespace s.db) := by
  have hno := hkeep.expires_eq h.represents
  obtain ⟨db₁, hexp, hrun⟩ := run_scan hd ho h q now now'
  rw [hrun, scanned_eq_selected ho (expire_eq_self hno)]
  apply List.filterMap_congr
  intro r _
  rw [rowAt, rowAt, hexp.valueAt_data hno, valueAt_markExecuting]

/-- A scan without expiry touches the index of its subscriber and positions only. -/
theorem valueAt_scan (hd : p.isDaemon = true) (ho : p.eventsOptimize = true)
    (h : Stored sub s log) {q : String} {now : EventTime}
    (hkeep : ExpiresNothing sub.dbNamespace (scanMembers q now s) s.db) (now' : EventTime)
    {key : String} (hkey : ¬IsIndex sub.dbNamespace key) (hpos : ¬IsPosition key) :
    valueAt ((scheduledScan p sub q now now').run s).2.db key = valueAt s.db key := by
  have hno := hkeep.expires_eq h.represents
  obtain ⟨db₁, hexp, hrun⟩ := run_scan hd ho h q now now'
  have hkept : valueAt db₁ key = valueAt (markExecuting s.db q) key := by
    rw [valueAt, valueAt, hexp.kept]
    rintro ⟨-, hk | hk | ⟨b, hb, hexpires, -⟩⟩
    · exact hkey (Or.inl hk)
    · exact hkey (Or.inr hk)
    · simp [hno b hb] at hexpires
  rw [hrun]
  exact ((agreesExcept_savePosition db₁ _ _).valueAt_eq hpos).trans
    (hkept.trans (valueAt_markExecuting _ _ _))

theorem scan_lastEid (hd : p.isDaemon = true) (ho : p.eventsOptimize = true)
    (h : Stored sub s log) (q : String) (now now' : EventTime) :
    ((scheduledScan p sub q now now').run s).2.members.lastEid = s.members.lastEid := by
  obtain ⟨db₁, -, hrun⟩ := run_scan hd ho h q now now'
  rw [hrun]
  rfl

/-! ### Two subscribers over one database -/

/-- The database and the members of two subscribers. -/
structure Pair where
  db : Database
  first : Members
  second : Members

/-- Run a program of the first subscriber. -/
def Pair.onFirst {α : Type} (w : Pair) (prog : Prog Access α) : α × Pair :=
  let r := prog.run ⟨w.db, w.first⟩
  (r.1, ⟨r.2.db, r.2.members, w.second⟩)

/-- Run a program of the second subscriber. -/
def Pair.onSecond {α : Type} (w : Pair) (prog : Prog Access α) : α × Pair :=
  let r := prog.run ⟨w.db, w.second⟩
  (r.1, ⟨r.2.db, w.first, r.2.members⟩)

/-- The clock readings of the scans of both subscribers in one run. -/
structure RunClock where
  first : EventTime × EventTime
  second : EventTime × EventTime

section Pairs

variable (p : Process) (a b : Subscriber)

/-- A query starts and scans the first subscriber. -/
def scanFirst (name : String) (c : RunClock) (w : Pair) : Pair :=
  (w.onFirst (scheduledScan p a name c.first.1 c.first.2)).2

/-- The same run then scans the second subscriber. -/
def scanSecond (c : RunClock) (w : Pair) : List Row × Pair :=
  w.onSecond (genTable p b [] c.second.1 c.second.2)

/-- Histories of two subscribers, next to the history in which every query reads
the second subscriber alone. Nothing expires and nothing is evicted. -/
inductive PairHistory : Pair → State → Prop
  | start {first second : Members} (hfirst : Fresh ⟨∅, first⟩) (hsecond : Fresh ⟨∅, second⟩) :
      PairHistory ⟨∅, first, second⟩ ⟨∅, second⟩
  | addFirst {w : Pair} {s : State} (rows : List Row) (custom now : EventTime)
      (h : PairHistory w s)
      (hroom : ¬Overflows a (prepared p a (eventTime custom now) rows ⟨w.db, w.first⟩)) :
      PairHistory (w.onFirst (addBatch p a rows custom now)).2 s
  | addSecond {w : Pair} {s : State} (rows : List Row) (custom now : EventTime)
      (h : PairHistory w s)
      (hroom : ¬Overflows b (prepared p b (eventTime custom now) rows ⟨w.db, w.second⟩))
      (hroom' : ¬Overflows b (prepared p b (eventTime custom now) rows s)) :
      PairHistory (w.onSecond (addBatch p b rows custom now)).2
        ((addBatch p b rows custom now).run s).2
  | query {w : Pair} {s : State} (name : String) (c : RunClock) (h : PairHistory w s)
      (hname : name ≠ "")
      (hfirst : ExpiresNothing a.dbNamespace (scanMembers name c.first.1 ⟨w.db, w.first⟩) w.db)
      (hsecond : ExpiresNothing b.dbNamespace
        (scanMembers name c.second.1 ⟨(scanFirst p a name c w).db, w.second⟩)
        (scanFirst p a name c w).db)
      (halone : ExpiresNothing b.dbNamespace (scanMembers name c.second.1 s) s.db) :
      PairHistory (scanSecond p b c (scanFirst p a name c w)).2
        ((scheduledScan p b name c.second.1 c.second.2).run s).2

end Pairs

variable {a b : Subscriber} {w : Pair}

/-- Both stores of the second subscriber hold the same events. -/
structure Together (a b : Subscriber) (w : Pair) (s : State) (log log' : EventLog) : Prop where
  first : Stored a ⟨w.db, w.first⟩ log
  second : Stored b ⟨w.db, w.second⟩ log'
  alone : Stored b s log'
  readyFirst : Ready a.dbNamespace ⟨w.db, w.first⟩
  readySecond : Ready b.dbNamespace ⟨w.db, w.second⟩
  readyAlone : Ready b.dbNamespace s
  lastEid : w.second.lastEid = s.members.lastEid
  data : ∀ n, valueAt w.db (dataKey b.dbNamespace (toIndex n)) =
    valueAt s.db (dataKey b.dbNamespace (toIndex n))

theorem Together.fresh {first second : Members} (hfirst : Fresh ⟨∅, first⟩)
    (hsecond : Fresh ⟨∅, second⟩) :
    Together a b ⟨∅, first, second⟩ ⟨∅, second⟩ EventLog.empty EventLog.empty := by
  have hval : ∀ key, valueAt ∅ key = "" := by
    intro key
    rw [valueAt, lookup_empty]
    rfl
  have hstored : ∀ (sub : Subscriber) (m : Members), Fresh ⟨∅, m⟩ →
      Stored sub ⟨∅, m⟩ EventLog.empty := by
    intro sub m hm
    refine ⟨represents_empty fun key => lookup_empty _ _, ?_, ?_⟩
    · intro r hr
      exact absurd hr List.not_mem_nil
    · exact (congrArg (fun t => UInt64.toNat t % 60) hm.expireTime).trans rfl
  exact ⟨hstored a first hfirst, hstored b second hsecond, hstored b second hsecond,
    Or.inr (hval _), Or.inr (hval _), Or.inr (hval _), rfl, fun _ => rfl⟩

/-- A program of the first subscriber that leaves the keys of the second alone. -/
theorem Together.onFirst {log log' logFirst : EventLog} {db' : Database} {first' : Members}
    (h : Together a b w s log log') (hu : Untouched b.dbNamespace w.db db')
    (hstored : Stored a ⟨db', first'⟩ logFirst) (hready : Ready a.dbNamespace ⟨db', first'⟩) :
    Together a b ⟨db', first', w.second⟩ s logFirst log' :=
  ⟨hstored, h.second.untouched hu, h.alone, hready, h.readySecond.untouched hu, h.readyAlone,
    h.lastEid, fun n => (hu _ (Or.inr (Or.inr ⟨n, rfl⟩))).trans (h.data n)⟩

theorem Together.addFirst {log log' : EventLog} (hne : a.dbNamespace ≠ b.dbNamespace)
    (h : Together a b w s log log') (rows : List Row) (custom now : EventTime)
    (hroom : ¬Overflows a (prepared p a (eventTime custom now) rows ⟨w.db, w.first⟩)) :
    ∃ logFirst, Together a b (w.onFirst (addBatch p a rows custom now)).2 s logFirst log' := by
  obtain ⟨logFirst, hext⟩ := extended_addBatch h.first h.readyFirst rows custom now hroom
  refine ⟨logFirst, h.onFirst (fun key hkey => hext.others key fun hown => ?_) hext.stored
    hext.ready⟩
  exact hown.disjoint hne hkey

theorem Together.addSecond {log log' : EventLog} (hne : a.dbNamespace ≠ b.dbNamespace)
    (h : Together a b w s log log') (rows : List Row) (custom now : EventTime)
    (hroom : ¬Overflows b (prepared p b (eventTime custom now) rows ⟨w.db, w.second⟩))
    (hroom' : ¬Overflows b (prepared p b (eventTime custom now) rows s)) :
    ∃ logSecond, Together a b (w.onSecond (addBatch p b rows custom now)).2
      ((addBatch p b rows custom now).run s).2 log logSecond := by
  obtain ⟨log₁, hext⟩ := extended_addBatch h.second h.readySecond rows custom now hroom
  obtain ⟨log₂, hext'⟩ := extended_addBatch h.alone h.readyAlone rows custom now hroom'
  have hlogs : log₁ = log₂ := by
    apply EventLog.eq_of_records
    rw [hext.records, hext'.records, h.lastEid]
  subst hlogs
  have hu : Untouched a.dbNamespace w.db ((addBatch p b rows custom now).run ⟨w.db, w.second⟩).2.db :=
    fun key hkey => hext.others key (hkey.disjoint hne)
  refine ⟨log₁, h.first.untouched hu, hext.stored, hext'.stored, h.readyFirst.untouched hu,
    hext.ready, hext'.ready, ?_, ?_⟩
  · exact hext.lastEid.trans ((congrArg (· + rows.length) h.lastEid).trans hext'.lastEid.symm)
  · intro n
    refine (hext.data n).trans (Eq.trans ?_ (hext'.data n).symm)
    rw [h.lastEid]
    exact valueAt_putBatch_congr (h.data n) _

section Scans

variable (hd : p.isDaemon = true) (ho : p.eventsOptimize = true)

include hd ho

/-- A scan without expiry keeps the store of its subscriber. -/
theorem stored_quietScan (h : Stored sub s log) (hready : Ready sub.dbNamespace s) {q : String}
    {now : EventTime} (hkeep : ExpiresNothing sub.dbNamespace (scanMembers q now s) s.db)
    (now' : EventTime) :
    Stored sub ((scheduledScan p sub q now now').run s).2 log ∧
      Ready sub.dbNamespace ((scheduledScan p sub q now now').run s).2 := by
  have hstored := stored_scan hd ho h q now now'
  rw [expire_eq_self (hkeep.expires_eq h.represents)] at hstored
  refine ⟨hstored, ?_⟩
  rcases hready with hr | hr
  · exact Or.inl (by rw [scan_lastEid hd ho h]; exact hr)
  · refine Or.inr ((valueAt_scan hd ho h hkeep now' ?_ ?_).trans hr)
    · exact fun hk => eidKey_not_event _ _ (Or.inl hk)
    · exact fun hk => hk.not_eid _ rfl

theorem untouched_scan {ns : String} (hne : sub.dbNamespace ≠ ns) (h : Stored sub s log)
    {q : String} {now : EventTime}
    (hkeep : ExpiresNothing sub.dbNamespace (scanMembers q now s) s.db) (now' : EventTime) :
    Untouched ns s.db ((scheduledScan p sub q now now').run s).2.db := by
  intro key hkey
  refine valueAt_scan hd ho h hkeep now' ?_ hkey.not_position
  exact fun hk => Owned.disjoint hne (Or.inr (Or.inl hk)) hkey

theorem Together.scanFirst {log log' : EventLog} (hne : a.dbNamespace ≠ b.dbNamespace)
    (h : Together a b w s log log') (name : String) (c : RunClock)
    (hkeep : ExpiresNothing a.dbNamespace (scanMembers name c.first.1 ⟨w.db, w.first⟩) w.db) :
    Together a b (EventSubscribers.scanFirst p a name c w) s log log' ∧
      IsExecuting name ⟨(EventSubscribers.scanFirst p a name c w).db, w.second⟩ := by
  obtain ⟨hstored, hready⟩ := stored_quietScan hd ho h.first h.readyFirst hkeep c.first.2
  exact ⟨h.onFirst (untouched_scan hd ho hne h.first hkeep c.first.2) hstored hready,
    isExecuting_scan hd ho h.first name c.first.1 c.first.2⟩

theorem Together.scanSecond {log log' : EventLog} (hne : a.dbNamespace ≠ b.dbNamespace)
    (h : Together a b w s log log') {name : String} (hexec : IsExecuting name ⟨w.db, w.second⟩)
    (c : RunClock)
    (hkeep : ExpiresNothing b.dbNamespace (scanMembers name c.second.1 ⟨w.db, w.second⟩) w.db)
    (halone : ExpiresNothing b.dbNamespace (scanMembers name c.second.1 s) s.db) :
    Together a b (EventSubscribers.scanSecond p b c w).2
      ((scheduledScan p b name c.second.1 c.second.2).run s).2 log log' := by
  have hgen := genTable_of_isExecuting p b hexec c.second.1 c.second.2
  obtain ⟨hstored, hready⟩ := stored_quietScan hd ho h.second h.readySecond hkeep c.second.2
  obtain ⟨hstored', hready'⟩ := stored_quietScan hd ho h.alone h.readyAlone halone c.second.2
  have hu := untouched_scan hd ho hne.symm h.second hkeep c.second.2
  have hdata : ∀ n, ¬IsIndex b.dbNamespace (dataKey b.dbNamespace (toIndex n)) ∧
      ¬IsPosition (dataKey b.dbNamespace (toIndex n)) :=
    fun n => ⟨dataKey_not_index _ _ _, dataKey_not_position _ _⟩
  have hpair : (EventSubscribers.scanSecond p b c w).2 =
      ⟨((scheduledScan p b name c.second.1 c.second.2).run ⟨w.db, w.second⟩).2.db, w.first,
        ((scheduledScan p b name c.second.1 c.second.2).run ⟨w.db, w.second⟩).2.members⟩ := by
    rw [← hgen]
    rfl
  rw [hpair]
  refine ⟨h.first.untouched hu, hstored, hstored', h.readyFirst.untouched hu, hready, hready', ?_, ?_⟩
  · exact (scan_lastEid hd ho h.second _ _ _).trans
      (h.lastEid.trans (scan_lastEid hd ho h.alone _ _ _).symm)
  · intro n
    exact (valueAt_scan hd ho h.second hkeep c.second.2 (hdata n).1 (hdata n).2).trans
      ((h.data n).trans
        (valueAt_scan hd ho h.alone halone c.second.2 (hdata n).1 (hdata n).2).symm)

/-- Both stores of the second subscriber stay equal along every history. -/
theorem PairHistory.together (hne : a.dbNamespace ≠ b.dbNamespace)
    (h : PairHistory p a b w s) : ∃ log log', Together a b w s log log' := by
  induction h with
  | start hfirst hsecond => exact ⟨_, _, Together.fresh hfirst hsecond⟩
  | addFirst rows custom now _ hroom ih =>
      obtain ⟨log, log', htog⟩ := ih
      obtain ⟨logFirst, hnext⟩ := htog.addFirst hne rows custom now hroom
      exact ⟨logFirst, log', hnext⟩
  | addSecond rows custom now _ hroom hroom' ih =>
      obtain ⟨log, log', htog⟩ := ih
      obtain ⟨logSecond, hnext⟩ := htog.addSecond hne rows custom now hroom hroom'
      exact ⟨log, logSecond, hnext⟩
  | query name c _ hname hfirst hsecond halone ih =>
      obtain ⟨log, log', htog⟩ := ih
      obtain ⟨hscanned, hexec⟩ := htog.scanFirst hd ho hne name c hfirst
      exact ⟨log, log', hscanned.scanSecond hd ho hne hexec c hsecond halone⟩

end Scans

/-! ### What the second scan yields -/

/-- Two positions of a query select the same stored events. -/
def SameSelection (p : Process) (sub : Subscriber) (log : EventLog) (db : Database)
    (position position' : EventTime × UInt64) (now : EventTime) : Prop :=
  ∀ r ∈ log.records, (rowAt p sub.dbNamespace db r).isSome = true →
    selects position now r = selects position' now r

theorem mem_selected {position : EventTime × UInt64} {now : EventTime} {r : Record} :
    r ∈ selected position now log ↔ r ∈ log.records ∧ selects position now r = true := by
  simp only [selected, sortedBins, List.mem_flatMap, List.mem_insertionSort, List.mem_filter,
    EventLog.binRecords, mem_group]
  constructor
  · rintro ⟨b, -, ⟨hmem, -⟩, hsel⟩
    exact ⟨hmem, hsel⟩
  · rintro ⟨hmem, hsel⟩
    exact ⟨r.bin, (mem_keys Record.bin).mpr ⟨r, hmem, rfl⟩, ⟨hmem, rfl⟩, hsel⟩

theorem filterMap_filter_congr {α β : Type} {f f' : α → Bool} {g : α → Option β} {l : List α}
    (h : ∀ x ∈ l, (g x).isSome = true → f x = f' x) :
    (l.filter f).filterMap g = (l.filter f').filterMap g := by
  induction l with
  | nil => rfl
  | cons x rest ih =>
      have hrest := ih fun y hy => h y (List.mem_cons_of_mem _ hy)
      cases hg : g x with
      | none =>
          have hdrop : ∀ k : α → Bool,
              ((x :: rest).filter k).filterMap g = (rest.filter k).filterMap g := by
            intro k
            rw [List.filter_cons]
            split
            · rw [List.filterMap_cons_none hg]
            · rfl
          rw [hdrop, hdrop, hrest]
      | some y =>
          have hx := h x List.mem_cons_self (by rw [hg]; rfl)
          rw [List.filter_cons, List.filter_cons, hx]
          split
          · rw [List.filterMap_cons_some hg, List.filterMap_cons_some hg, hrest]
          · exact hrest

theorem SameSelection.rows_eq {db : Database} {position position' : EventTime × UInt64}
    {now : EventTime} (h : SameSelection p sub log db position position' now) :
    (selected position now log).filterMap (rowAt p sub.dbNamespace db) =
      (selected position' now log).filterMap (rowAt p sub.dbNamespace db) := by
  rw [selected, selected, List.filterMap_flatMap, List.filterMap_flatMap]
  apply List.flatMap_congr
  intro b _
  apply filterMap_filter_congr
  intro r hr hrow
  exact h r ((mem_group Record.bin).mp hr).1 hrow

theorem sameSelection_of_rows {db : Database} {position position' : EventTime × UInt64}
    {now : EventTime} (hdistinct : DistinctRows p sub.dbNamespace db log)
    (h : ∀ row, row ∈ (selected position now log).filterMap (rowAt p sub.dbNamespace db) ↔
      row ∈ (selected position' now log).filterMap (rowAt p sub.dbNamespace db)) :
    SameSelection p sub log db position position' now := by
  have hone : ∀ (pos pos' : EventTime × UInt64), (∀ row,
      row ∈ (selected pos now log).filterMap (rowAt p sub.dbNamespace db) →
        row ∈ (selected pos' now log).filterMap (rowAt p sub.dbNamespace db)) →
      ∀ r ∈ log.records, ∀ row, rowAt p sub.dbNamespace db r = some row →
        selects pos now r = true → selects pos' now r = true := by
    intro pos pos' hsub r hr row hrow hsel
    obtain ⟨r', hr', hrow'⟩ := List.mem_filterMap.mp
      (hsub row (List.mem_filterMap.mpr ⟨r, mem_selected.mpr ⟨hr, hsel⟩, hrow⟩))
    obtain ⟨hmem, hsel'⟩ := mem_selected.mp hr'
    obtain rfl := hdistinct r hr r' hmem row hrow hrow'
    exact hsel'
  intro r hr hrow
  obtain ⟨row, hrow⟩ := Option.isSome_iff_exists.mp hrow
  rw [Bool.eq_iff_iff]
  exact ⟨hone position position' (fun row => (h row).mp) r hr row hrow,
    hone position' position (fun row => (h row).mpr) r hr row hrow⟩

/-- The position that a scan at a clock reading leaves to its query. -/
def positionAfter (p : Process) (q : String) (now : EventTime) (s : State) (log : EventLog) :
    EventTime × UInt64 :=
  (now - 1, lastPosition p (scanned p (scanMembers q now s) (storedPosition s.db q).1 0 log)
    (storedPosition s.db q).2)

/-- After any history of two subscribers, a run of a query yields the same
events of the second subscriber as if it read this one alone when the position
that its scan of the first subscriber leaves selects the same events as the one
that it would have alone, and, rows being different, only then. -/
theorem scanSecond_independent {logFirst : EventLog} (hd : p.isDaemon = true)
    (ho : p.eventsOptimize = true) (hne : a.dbNamespace ≠ b.dbNamespace)
    (h : PairHistory p a b w s) (hlogFirst : Stored a ⟨w.db, w.first⟩ logFirst)
    (hlog : Stored b s log) {q : String} (hq : q ≠ "") (c : RunClock)
    (hclock : (c.first.1 - 1).toNat < 2 ^ 63)
    (hfirst : ExpiresNothing a.dbNamespace (scanMembers q c.first.1 ⟨w.db, w.first⟩) w.db)
    (hsecond : ExpiresNothing b.dbNamespace
      (scanMembers q c.second.1 ⟨(scanFirst p a q c w).db, w.second⟩) (scanFirst p a q c w).db)
    (halone : ExpiresNothing b.dbNamespace (scanMembers q c.second.1 s) s.db) :
    (SameSelection p b log s.db (positionAfter p q c.first.1 ⟨w.db, w.first⟩ logFirst)
        (storedPosition s.db q) c.second.1 →
      (scanSecond p b c (scanFirst p a q c w)).1 =
        ((scheduledScan p b q c.second.1 c.second.2).run s).1) ∧
    (DistinctRows p b.dbNamespace s.db log →
      (∀ row, row ∈ (scanSecond p b c (scanFirst p a q c w)).1 ↔
        row ∈ ((scheduledScan p b q c.second.1 c.second.2).run s).1) →
      SameSelection p b log s.db (positionAfter p q c.first.1 ⟨w.db, w.first⟩ logFirst)
        (storedPosition s.db q) c.second.1) := by
  obtain ⟨logFirst', log', htog⟩ := h.together hd ho hne
  obtain rfl := hlog.represents.unique htog.alone.represents
  obtain ⟨hscanned, hexec⟩ := htog.scanFirst hd ho hne q c hfirst
  have hposition : storedPosition (scanFirst p a q c w).db q =
      positionAfter p q c.first.1 ⟨w.db, w.first⟩ logFirst :=
    (storedPosition_scan hd ho hlogFirst hq hclock c.first.2 q).trans (if_pos rfl)
  have hrow : ∀ r, rowAt p b.dbNamespace (scanFirst p a q c w).db r =
      rowAt p b.dbNamespace s.db r := by
    intro r
    rw [rowAt, rowAt, hscanned.data]
  have hpair : (scanSecond p b c (scanFirst p a q c w)).1 =
      (selected (positionAfter p q c.first.1 ⟨w.db, w.first⟩ logFirst) c.second.1 log).filterMap
        (rowAt p b.dbNamespace s.db) := by
    refine (congrArg Prod.fst (genTable_of_isExecuting p b hexec c.second.1 c.second.2)).trans ?_
    refine (run_scan_selected hd ho hscanned.second hsecond c.second.2).trans ?_
    rw [hposition]
    exact List.filterMap_congr fun r _ => hrow r
  have hown := run_scan_selected hd ho htog.alone halone c.second.2
  rw [hpair, hown]
  exact ⟨fun hsame => hsame.rows_eq,
    fun hdistinct hrows => sameSelection_of_rows hdistinct hrows⟩

/-! ### A query over two subscribers -/

/-- A second subscriber of the same type. -/
def otherSubscriber : Subscriber := ⟨"type", "other", 0, 1000⟩

/-- One event of the second subscriber is added. -/
def samplePair (now : EventTime) : Pair :=
  ((⟨∅, {}, {}⟩ : Pair).onSecond (addBatch sampleProcess sampleSubscriber [sampleRow "a"] 0 now)).2

/-- The same event where the second subscriber is alone. -/
def sampleAlone (now : EventTime) : State :=
  ((addBatch sampleProcess sampleSubscriber [sampleRow "a"] 0 now).run ⟨∅, {}⟩).2

theorem other_ne : otherSubscriber.dbNamespace ≠ sampleSubscriber.dbNamespace := by
  decide

theorem samplePair_history {now : EventTime}
    (hroom : ¬Overflows sampleSubscriber
      (prepared sampleProcess sampleSubscriber (eventTime 0 now) [sampleRow "a"] ⟨∅, {}⟩)) :
    PairHistory sampleProcess otherSubscriber sampleSubscriber (samplePair now)
      (sampleAlone now) :=
  PairHistory.addSecond [sampleRow "a"] 0 now
    (PairHistory.start ⟨rfl, rfl, rfl⟩ ⟨rfl, rfl, rfl⟩) hroom hroom

/-- The first subscriber has no event. -/
theorem samplePair_first {now : EventTime}
    (hroom : ¬Overflows sampleSubscriber
      (prepared sampleProcess sampleSubscriber (eventTime 0 now) [sampleRow "a"] ⟨∅, {}⟩)) :
    Stored otherSubscriber ⟨(samplePair now).db, (samplePair now).first⟩ EventLog.empty := by
  have hfresh : Together otherSubscriber sampleSubscriber ⟨∅, {}, {}⟩ ⟨∅, {}⟩ EventLog.empty
      EventLog.empty := Together.fresh ⟨rfl, rfl, rfl⟩ ⟨rfl, rfl, rfl⟩
  obtain ⟨log, htog⟩ := hfresh.addSecond (p := sampleProcess) other_ne [sampleRow "a"] 0 now
    hroom hroom
  exact htog.first

/-- An event of the second in which the query runs is read all the same. -/
theorem scanSecond_independent_same_second :
    (scanSecond sampleProcess sampleSubscriber ⟨(100, 100), (100, 100)⟩
        (scanFirst sampleProcess otherSubscriber "q" ⟨(100, 100), (100, 100)⟩
          (samplePair 100))).1 =
      ((scheduledScan sampleProcess sampleSubscriber "q" 100 100).run (sampleAlone 100)).1 ∧
    ((scheduledScan sampleProcess sampleSubscriber "q" 100 100).run
      (sampleAlone 100)).1.length = 1 := by
  refine ⟨?_, by decide +kernel⟩
  obtain ⟨log, hlog, hrecords, -⟩ := sample_stored rfl rfl rangeActions_timeline
  have hroom : ¬Overflows sampleSubscriber
      (prepared sampleProcess sampleSubscriber (eventTime 0 100) [sampleRow "a"] ⟨∅, {}⟩) := by
    decide +kernel
  refine (scanSecond_independent rfl rfl other_ne (samplePair_history hroom)
    (samplePair_first hroom) hlog (by decide) ⟨(100, 100), (100, 100)⟩ (by decide)
    (by decide +kernel) (by decide +kernel) (by decide +kernel)).1 ?_
  intro r hr _
  rw [hrecords, List.mem_singleton] at hr
  subst hr
  decide +kernel

/-- An event that is older than the run is lost when the query reads another
subscriber first. -/
theorem scanSecond_dependent :
    ¬∀ (p : Process) (a b : Subscriber) (w : Pair) (s : State) (q : String) (c : RunClock),
      p.isDaemon = true → p.eventsOptimize = true → a.dbNamespace ≠ b.dbNamespace →
        PairHistory p a b w s → q ≠ "" →
        ExpiresNothing a.dbNamespace (scanMembers q c.first.1 ⟨w.db, w.first⟩) w.db →
        ExpiresNothing b.dbNamespace
          (scanMembers q c.second.1 ⟨(scanFirst p a q c w).db, w.second⟩)
          (scanFirst p a q c w).db →
        ExpiresNothing b.dbNamespace (scanMembers q c.second.1 s) s.db →
          ∀ row, row ∈ (scanSecond p b c (scanFirst p a q c w)).1 ↔
            row ∈ ((scheduledScan p b q c.second.1 c.second.2).run s).1 := by
  intro h
  have hrows := h sampleProcess otherSubscriber sampleSubscriber (samplePair 50) (sampleAlone 50)
    "q" ⟨(100, 100), (100, 100)⟩ rfl rfl other_ne (samplePair_history (by decide +kernel))
    (by decide) (by decide +kernel) (by decide +kernel) (by decide +kernel)
  have hpair : (scanSecond sampleProcess sampleSubscriber ⟨(100, 100), (100, 100)⟩
      (scanFirst sampleProcess otherSubscriber "q" ⟨(100, 100), (100, 100)⟩
        (samplePair 50))).1.length = 0 := by
    decide +kernel
  have halone : 0 < ((scheduledScan sampleProcess sampleSubscriber "q" 100 100).run
      (sampleAlone 50)).1.length := by
    decide +kernel
  obtain ⟨row, hrow⟩ := List.exists_mem_of_length_pos halone
  have hmem := (hrows row).mpr hrow
  rw [List.length_eq_zero_iff.mp hpair] at hmem
  exact absurd hmem List.not_mem_nil

end Osquery.EventSubscribers
