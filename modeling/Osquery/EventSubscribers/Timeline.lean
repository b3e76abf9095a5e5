import Osquery.EventSubscribers.Consistency

/-!
# Recording at the time of the clock

When events are recorded at the time of a clock that does not go back, the
order of the ids is the order of the times. A scan from the position of a query
then reads the records after its id, in the order of the log: the bins are
sorted, and a bin that the range leaves out has no such record.
-/

namespace Osquery.EventSubscribers

open Foundation.AtomicProgram Foundation.JsonText Foundation.Numeral Foundation.Separated
open Foundation.Grouping Core.BackingStore Core.Conversions Core.Rows

variable {p : Process} {sub : Subscriber} {s : State} {log : EventLog}

/-! ### Consecutive ids -/

/-- Rows with the ids that follow an id. -/
def numbered (n : ℕ) (rows : List Row) : Batch := rows.zipIdx (n + 1)

theorem numbered_eids (n : ℕ) (rows : List Row) :
    (numbered n rows).map Prod.snd = List.range' (n + 1) rows.length :=
  List.zipIdx_map_snd _ _

theorem numbered_cons (n : ℕ) (row : Row) (rows : List Row) :
    numbered n (row :: rows) = (row, n + 1) :: numbered (n + 1) rows := by
  rw [numbered, List.zipIdx_cons]
  rfl

/-- The counter was read before, or nothing is stored for it. -/
def Ready (ns : String) (s : State) : Prop :=
  s.members.lastEid ≠ 0 ∨ valueAt s.db (eidKey ns) = ""

theorem run_restoreEid_ready (h : Ready sub.dbNamespace s) :
    (restoreEid sub).run s = (.ok (), s) := by
  simp only [restoreEid, Prog.run_bind, run_readMembers]
  by_cases hlast : s.members.lastEid ≠ 0
  · rw [if_pos hlast]
    rfl
  · have hempty : valueAt s.db ("eid." ++ sub.dbNamespace) = "" := h.resolve_left hlast
    have hcast : lexicalCast "0" = some 0 := by decide
    obtain ⟨db, m⟩ := s
    have hm : { m with lastEid := 0 } = m := by
      have hzero : m.lastEid = 0 := not_not.mp hlast
      cases m
      cases hzero
      rfl
    rw [if_neg hlast, Prog.run_bind, run_readEvents, hempty, if_pos rfl, hcast]
    exact congrArg (fun m' => (Except.ok (), State.mk db m')) hm

theorem run_getEventID_ready (h : Ready sub.dbNamespace s) :
    ∃ db', (getEventID sub).run s = (.ok (toIndex (s.members.lastEid + 1)),
        ⟨db', { s.members with lastEid := s.members.lastEid + 1 }⟩) ∧
      AgreesExcept (· = eidKey sub.dbNamespace) s.db db' := by
  simp only [getEventID, Prog.run_bind, run_restoreEid_ready h, run_readMembers]
  by_cases hten : s.members.lastEid % 10 = 0
  · rw [if_pos hten]
    exact ⟨_, rfl, agreesExcept_setValue _ _ _⟩
  · rw [if_neg hten]
    exact ⟨_, rfl, AgreesExcept.refl _ _⟩

/-- The rows of a batch get the ids that follow the last one. -/
theorem run_prepareRows_ready (p : Process) (time : EventTime) (rows : List Row)
    (h : Ready sub.dbNamespace s) :
    ∃ db', (prepareRows p sub time rows).run s =
        (.ok ((numbered s.members.lastEid rows).map fun d =>
            (toIndex d.2, storedText p time d.1 d.2)),
          ⟨db', { s.members with lastEid := s.members.lastEid + rows.length }⟩) ∧
      AgreesExcept (· = eidKey sub.dbNamespace) s.db db' := by
  induction rows generalizing s with
  | nil => exact ⟨s.db, rfl, AgreesExcept.refl _ _⟩
  | cons row rest ih =>
      obtain ⟨db₁, hrun, hagree⟩ := run_getEventID_ready h
      obtain ⟨db₂, hrest, hagree₂⟩ := ih
        (s := ⟨db₁, { s.members with lastEid := s.members.lastEid + 1 }⟩)
        (Or.inl (Nat.succ_ne_zero _))
      refine ⟨db₂, ?_, hagree.trans hagree₂⟩
      rw [prepareRows, Prog.run_bind, hrun]
      simp only [Prog.run_bind, hrest, numbered_cons, List.map_cons, List.length_cons,
        Nat.add_right_comm _ 1, ← Nat.add_assoc]
      rfl

/-- The checkpoint of a batch finds more events than the buffer may hold. -/
def Overflows (sub : Subscriber) (s : State) : Prop :=
  s.members.lastEid % eventsCheckpoint = 0 ∧
    sub.eventsMax.toNat < (bufferedKeys sub s.db).length

instance (sub : Subscriber) (s : State) : Decidable (Overflows sub s) :=
  inferInstanceAs (Decidable (_ ∧ _))

theorem run_checkpoint_of_not_overflows (p : Process) (h : ¬Overflows sub s) :
    (checkpoint p sub).run s = (.ok (), s) := by
  rw [checkpoint, Prog.run_bind, run_readMembers]
  by_cases hc : s.members.lastEid % eventsCheckpoint = 0
  · have hle : (bufferedKeys sub s.db).length ≤ sub.eventsMax.toNat :=
      not_lt.mp fun hlt => h ⟨hc, hlt⟩
    rw [if_pos hc, run_expireCheck_eq, if_pos hle]
  · rw [if_neg hc]
    rfl

/-- The state in which a batch reaches its checkpoint. -/
def prepared (p : Process) (sub : Subscriber) (time : EventTime) (rows : List Row) (s : State) :
    State := ((prepareRows p sub time rows).run s).2

/-- A batch without overflow is stored under the ids that follow the last one. -/
theorem run_addBatch_ready (h : Represents sub.dbNamespace s.db log)
    (hready : Ready sub.dbNamespace s) {rows : List Row} (hne : rows ≠ []) (custom now : EventTime)
    (hno : ¬Overflows sub (prepared p sub (eventTime custom now) rows s)) :
    ∃ db₁, AgreesExcept (· = eidKey sub.dbNamespace) s.db db₁ ∧
      (addBatch p sub rows custom now).run s =
        (.ok (), ⟨storedBatch p sub.dbNamespace (eventTime custom now)
            (numbered s.members.lastEid rows) log db₁,
          { s.members with lastEid := s.members.lastEid + rows.length }⟩) := by
  obtain ⟨db₁, hrun, hagree⟩ := run_prepareRows_ready p (eventTime custom now) rows hready
  have hbatch : numbered s.members.lastEid rows ≠ [] := by
    intro hnil
    exact hne (List.zipIdx_eq_nil_iff.mp hnil)
  have h₁ : Represents sub.dbNamespace db₁ log :=
    h.congr hagree (eidKey_not_index _) fun _ => eidKey_not_record _ _
  rw [prepared, hrun] at hno
  refine ⟨db₁, hagree, ?_⟩
  have hstart : (addBatch p sub rows custom now).run s = _ := Prog.run_bind _ _ s
  rw [show (if custom ≠ 0 then custom else now) = eventTime custom now from rfl, hrun] at hstart
  dsimp only at hstart
  rw [if_neg (by simpa using hbatch), Prog.run_bind, run_checkpoint_of_not_overflows p hno] at hstart
  rw [hstart]
  exact run_storeBatch _ hbatch h₁

theorem run_addBatch_nil (p : Process) (sub : Subscriber) (custom now : EventTime) (s : State) :
    ((addBatch p sub [] custom now).run s).2 = s := rfl

/-! ### Logs in the order of a clock -/

/-- The times of a log follow its ids, none is after the clock, and times and
ids fit the signed integers they are read as. -/
structure InOrder (log : EventLog) (clock : EventTime) : Prop where
  times : log.records.Pairwise fun a b => a.time ≤ b.time
  past : ∀ r ∈ log.records, r.time ≤ clock
  clock_lt : clock.toNat < 2 ^ 63
  eid_lt : ∀ r ∈ log.records, r.eid < 2 ^ 63

theorem InOrder.mono {clock clock' : EventTime} (h : InOrder log clock) (hle : clock ≤ clock')
    (hlt : clock'.toNat < 2 ^ 63) : InOrder log clock' :=
  ⟨h.times, fun r hr => UInt64.le_trans (h.past r hr) hle, hlt, h.eid_lt⟩

theorem InOrder.keep {clock : EventTime} (h : InOrder log clock) (keepBin : ℕ → Bool) :
    InOrder (log.keep keepBin) clock :=
  ⟨h.times.filter _, fun r hr => h.past r (mem_keep hr), h.clock_lt,
    fun r hr => h.eid_lt r (mem_keep hr)⟩

theorem InOrder.time_lt {clock : EventTime} (h : InOrder log clock) {r : Record}
    (hr : r ∈ log.records) : r.time.toNat < 2 ^ 63 :=
  lt_of_le_of_lt (UInt64.le_iff_toNat_le.mp (h.past r hr)) h.clock_lt

theorem InOrder.readTime_eq {clock : EventTime} (h : InOrder log clock) {r : Record}
    (hr : r ∈ log.records) : readTime r.time = r.time := if_pos (h.time_lt hr)

theorem readEid_toNat {eid : ℕ} (h : eid < 2 ^ 63) : (readEid eid).toNat = eid := by
  rw [readEid, if_pos h, UInt64.toNat_ofNat']
  exact Nat.mod_eq_of_lt (by omega)

/-- A later time has a later id. -/
theorem InOrder.eid_lt_of_time_lt {clock : EventTime} (h : InOrder log clock) {a b : Record}
    (ha : a ∈ log.records) (hb : b ∈ log.records) (hlt : a.time < b.time) : a.eid < b.eid := by
  have hboth : log.records.Pairwise fun a b => a.eid < b.eid ∧ a.time ≤ b.time :=
    log.increasing.and h.times
  obtain ⟨i, hi, rfl⟩ := List.getElem_of_mem ha
  obtain ⟨j, hj, rfl⟩ := List.getElem_of_mem hb
  rcases lt_trichotomy i j with hij | rfl | hij
  · exact (List.pairwise_iff_getElem.mp hboth i j hi hj hij).1
  · exact absurd hlt (UInt64.lt_irrefl _)
  · exact absurd (List.pairwise_iff_getElem.mp hboth j i hj hi hij).2 (UInt64.not_le.mpr hlt)

/-- The position of a query separates the records after its id: they are later
than its time. -/
def Separates (log : EventLog) (time : EventTime) (eid : UInt64) : Prop :=
  ∀ r ∈ log.records, eid.toNat < r.eid → time < r.time

/-- The records after an id. -/
def EventLog.after (log : EventLog) (eid : UInt64) : List Record :=
  log.records.filter fun r => eid.toNat < r.eid

section Scan

variable {m : Members} {now : EventTime}

/-- At the time of the clock exactly the records after the id pass. -/
theorem InOrder.passes_eq (ho : p.eventsOptimize = true) (h : InOrder log now)
    (hm : m.optimizeTime = now - 1) {r : Record} (hr : r ∈ log.records) :
    passes p m true r = decide (m.optimizeEid.toNat < r.eid) := by
  have htime : readTime r.time ≤ m.optimizeTime + 1 := by
    rw [h.readTime_eq hr, hm, UInt64.sub_add_cancel]
    exact h.past r hr
  have heid : readEid r.eid ≤ m.optimizeEid ↔ r.eid ≤ m.optimizeEid.toNat := by
    rw [UInt64.le_iff_toNat_le, readEid_toNat (h.eid_lt r hr)]
  simp only [passes, ho, htime, heid, decide_true, Bool.and_self, Bool.true_and, ← not_le,
    decide_not]

/-- The bin of a record from a time on lies in the range that starts there. -/
theorem inRange_bin {start : EventTime} {r : Record} (h : start ≤ r.time) :
    inRange (if start > 0 then start / 60 else 0) (if (0 : EventTime) > 0 then 0 / 60 + 1 else 0)
      (UInt64.ofNat r.bin) = true := by
  have h60 : (60 : UInt64).toNat = 60 := rfl
  have hle : (if start > 0 then start / 60 else 0) ≤ UInt64.ofNat r.bin := by
    rw [UInt64.le_iff_toNat_le, toNat_ofNat_bin r.bin_lt]
    split
    · rw [UInt64.toNat_div, h60]
      exact Nat.div_le_div_right (UInt64.le_iff_toNat_le.mp h)
    · exact Nat.zero_le _
  rw [inRange, decide_eq_true hle]
  rfl

theorem sorted_rangeBins (start stop : EventTime) (log : EventLog) :
    (rangeBins start stop log.bins).Pairwise (· < ·) := by
  have hsorted : (rangeBins start stop log.bins).Pairwise (· ≤ ·) :=
    List.pairwise_insertionSort (· ≤ ·) _
  have hnodup : (rangeBins start stop log.bins).Nodup :=
    (List.perm_insertionSort _ _).nodup_iff.mpr (log.nodup_bins.filter _)
  exact (hsorted.and hnodup).imp fun h => lt_of_le_of_ne h.1 h.2

/-- A scan from a position that separates reads the records after its id. -/
theorem InOrder.scanned_eq (ho : p.eventsOptimize = true) (h : InOrder log now)
    (hm : m.optimizeTime = now - 1) {start : EventTime}
    (hsep : Separates log start m.optimizeEid) :
    scanned p m start 0 log = (log.expire m).after m.optimizeEid := by
  have hpass : ∀ b, ((log.expire m).binRecords b).filter (passes p m true) =
      group Record.bin ((log.expire m).after m.optimizeEid) b := by
    intro b
    rw [EventLog.after, group, EventLog.binRecords, group, List.filter_filter, List.filter_filter]
    apply List.filter_congr
    intro r hr
    rw [h.passes_eq ho hm (mem_keep hr), Bool.and_comm]
  have hsorted := sorted_rangeBins start 0 log
  rw [scanned, funext hpass]
  apply flatMap_group_eq Record.bin (r := fun a b => a.eid < b.eid)
  · exact fun a b hab => not_lt_of_gt hab
  · exact hsorted.imp fun hlt => hlt.ne
  · intro r hr
    obtain ⟨hmem, hafter⟩ := List.mem_filter.mp hr
    have hlog := mem_keep hmem
    have hstart := hsep r hlog (of_decide_eq_true hafter)
    rw [rangeBins, List.mem_insertionSort, List.mem_filter]
    exact ⟨(mem_keys Record.bin).mpr ⟨r, hlog, rfl⟩, inRange_bin (UInt64.le_of_lt hstart)⟩
  · exact (log.expire m).increasing.filter _
  · refine hsorted.imp ?_
    intro b b' hlt r hr r' hr'
    obtain ⟨hmem, rfl⟩ := (mem_group Record.bin).mp hr
    obtain ⟨hmem', rfl⟩ := (mem_group Record.bin).mp hr'
    apply h.eid_lt_of_time_lt (mem_keep (List.mem_filter.mp hmem).1)
      (mem_keep (List.mem_filter.mp hmem').1)
    rw [UInt64.lt_iff_toNat_lt]
    by_contra hge
    exact absurd (Nat.div_le_div_right (c := 60) (not_lt.mp hge)) (not_le_of_gt hlt)

theorem InOrder.inSpan_eq {start : EventTime} (h : InOrder log now) {eid : UInt64}
    (hsep : Separates log start eid) {r : Record} (hr : r ∈ log.records)
    (hafter : eid.toNat < r.eid) : inSpan start 0 r = true := by
  have hle : start ≤ readTime r.time := by
    rw [h.readTime_eq hr]
    exact UInt64.le_of_lt (hsep r hr hafter)
  simp [inSpan, hle]

end Scan

/-! ### Positions -/

theorem tryToUnsigned_toIndex (eid : UInt64) : tryToUnsigned (toIndex eid.toNat) 0 = eid := by
  rw [tryToUnsigned, stoull_toIndex, if_pos eid.toNat_lt]
  exact UInt64.ofNat_toNat

theorem timeKey_inj {q q' : String} : timeKey q = timeKey q' ↔ q = q' := by
  rw [timeKey, timeKey, String.append_right_inj]

theorem positionKey_inj {q q' : String} : positionKey q = positionKey q' ↔ q = q' := by
  rw [positionKey, positionKey, String.append_right_inj]

theorem timeKey_ne_positionKey (q q' : String) : timeKey q ≠ positionKey q' := by
  intro h
  have hl := congrArg String.toList h
  simp [timeKey, positionKey] at hl

/-- The position that was saved is read again, and other queries keep theirs. -/
theorem storedPosition_savePosition {db : Database} (hq : executing db ≠ "") {time : EventTime}
    (ht : time.toNat < 2 ^ 63) (eid : UInt64) (q : String) :
    storedPosition (savePosition db time eid) q =
      if q = executing db then (time, eid) else storedPosition db q := by
  have hne := fun q q' => (timeKey_ne_positionKey q q').symm
  rw [savePosition, if_neg hq, storedPosition]
  simp only [valueAt_setValue, hne, timeKey_ne_positionKey, if_false, timeKey_inj, positionKey_inj]
  by_cases hname : q = executing db
  · rw [if_neg (hname ▸ hq), if_pos hname, if_pos hname.symm, if_pos hname.symm,
      timeFromRecord_time, readTime, if_pos ht, tryToUnsigned_toIndex]
  · rw [if_neg hname, if_neg (Ne.symm hname), if_neg (Ne.symm hname)]
    rfl

/-- Positions are read from their own keys. -/
theorem storedPosition_congr {db db' : Database}
    (h : ∀ key, IsPosition key → valueAt db' key = valueAt db key) (q : String) :
    storedPosition db' q = storedPosition db q := by
  rw [storedPosition, storedPosition, h _ ⟨q, Or.inl rfl⟩, h _ ⟨q, Or.inr rfl⟩]

theorem IsPosition.not_data {key : String} (h : IsPosition key) : ¬IsData key := by
  intro hdata
  obtain ⟨rest, hrest⟩ := hdata
  have hhead := h.head
  rw [← hrest] at hhead
  simp at hhead

theorem IsPosition.not_index {key ns : String} (h : IsPosition key) : ¬IsIndex ns key := by
  rintro (rfl | ⟨x, rfl⟩)
  · exact indexKey_not_position ns h
  · exact recordKey_not_position ns _ h

theorem IsPosition.not_eid {key : String} (h : IsPosition key) (ns : String) :
    key ≠ eidKey ns := by
  rintro rfl
  have hhead := h.head
  simp [eidKey] at hhead

/-! ### Scans of a scheduled query -/

/-- The database while a query executes. -/
def markExecuting (db : Database) (name : String) : Database :=
  Ephemeral.setValue db kPersistentSettings kExecutingQuery name

@[simp] theorem executing_markExecuting (db : Database) (name : String) :
    executing (markExecuting db name) = name := by
  rw [executing, markExecuting, lookup_setValue, if_pos ⟨rfl, rfl⟩]
  rfl

@[simp] theorem valueAt_markExecuting (db : Database) (name key : String) :
    valueAt (markExecuting db name) key = valueAt db key := valueAt_setExecuting db name key

/-- A scheduled query starts executing and scans the subscriber without a time
constraint. -/
def scheduledScan (p : Process) (sub : Subscriber) (name : String) (now now' : EventTime) :
    Prog Access (List Row) := do
  let _ ← setDatabaseValue kPersistentSettings kExecutingQuery name
  genTable p sub [] now now'

/-- The members when the scan of a query begins. -/
def scanMembers (name : String) (now : EventTime) (s : State) : Members :=
  beginScan (markExecuting s.db name) now s.members

theorem scanMembers_optimizeTime (name : String) (now : EventTime) (s : State) :
    (scanMembers name now s).optimizeTime = now - 1 := rfl

theorem storedPosition_markExecuting (db : Database) (name q : String) :
    storedPosition (markExecuting db name) q = storedPosition db q :=
  storedPosition_congr (fun _ _ => valueAt_markExecuting db name _) q

theorem scanMembers_optimizeEid (name : String) (now : EventTime) (s : State) :
    (scanMembers name now s).optimizeEid = (storedPosition s.db name).2 := by
  rw [scanMembers, beginScan, executing_markExecuting]
  exact congrArg Prod.snd (storedPosition_markExecuting s.db name name)

theorem run_scheduledScan (hd : p.isDaemon = true) (ho : p.eventsOptimize = true) (name : String)
    (now now' : EventTime) (s : State) :
    (scheduledScan p sub name now now').run s =
      (get p sub (storedPosition s.db name).1 0 now').run
        ⟨markExecuting s.db name, scanMembers name now s⟩ := by
  have hmark : (setDatabaseValue kPersistentSettings kExecutingQuery name : Prog Access _).run s =
      (.ok (), ⟨markExecuting s.db name, s.members⟩) := rfl
  rw [scheduledScan, Prog.run_bind, hmark, run_genTable_optimized hd ho, executing_markExecuting,
    storedPosition_markExecuting]
  rfl

theorem Expired.executing_eq {ns : String} {m : Members} {db db' : Database}
    (h : Expired ns m log db db') : executing db' = executing db := by
  have hdomain : kPersistentSettings ≠ kEvents := by decide
  rw [executing, executing, h.kept _ _ fun hk => hdomain hk.1]

theorem Expired.storedPosition_eq {ns : String} {m : Members} {db db' : Database}
    (h : Expired ns m log db db') (q : String) : storedPosition db' q = storedPosition db q := by
  refine storedPosition_congr (fun key hkey => h.agreesExcept.valueAt_eq ?_) q
  rintro (hk | hk)
  · exact hkey.not_index hk
  · exact hkey.not_data hk

/-- One scan of a scheduled query: it yields the rows in its span and saves the
id of the last record that it read. -/
theorem run_scan (hd : p.isDaemon = true) (ho : p.eventsOptimize = true) (h : Stored sub s log)
    (q : String) (now now' : EventTime) :
    ∃ db₁, Expired sub.dbNamespace (scanMembers q now s) log (markExecuting s.db q) db₁ ∧
      (scheduledScan p sub q now now').run s =
        (((scanned p (scanMembers q now s) (storedPosition s.db q).1 0 log).filter
            (inSpan (storedPosition s.db q).1 0)).filterMap (rowAt p sub.dbNamespace db₁),
          ⟨savePosition db₁ (now - 1)
              (lastPosition p (scanned p (scanMembers q now s) (storedPosition s.db q).1 0 log)
                (storedPosition s.db q).2),
            afterScan p sub (storedPosition s.db q).1 0 now' log (scanMembers q now s)⟩) := by
  have hrep : Represents sub.dbNamespace (markExecuting s.db q) log :=
    h.represents.of_valueAt (valueAt_markExecuting _ _ _) fun x => valueAt_markExecuting _ _ _
  obtain ⟨db₁, hexp, hrun⟩ := run_get (s := ⟨markExecuting s.db q, scanMembers q now s⟩) p hrep
    h.wholeMinute (storedPosition s.db q).1 0 now'
  refine ⟨db₁, hexp, ?_⟩
  rw [run_scheduledScan hd ho, hrun, afterSave, if_pos ho, ← scanMembers_optimizeEid q now s]
  rfl

theorem stored_scan (hd : p.isDaemon = true) (ho : p.eventsOptimize = true) (h : Stored sub s log)
    (q : String) (now now' : EventTime) :
    Stored sub ((scheduledScan p sub q now now').run s).2 (log.expire (scanMembers q now s)) := by
  rw [run_scheduledScan hd ho]
  apply stored_get (s := ⟨markExecuting s.db q, scanMembers q now s⟩) p
  refine ⟨?_, h.bounded, h.wholeMinute⟩
  exact h.represents.of_valueAt (valueAt_markExecuting _ _ _) fun x => valueAt_markExecuting _ _ _

/-- A scan moves the position of its own query only. -/
theorem storedPosition_scan (hd : p.isDaemon = true) (ho : p.eventsOptimize = true)
    (h : Stored sub s log) {q : String} (hq : q ≠ "") {now : EventTime}
    (hlt : (now - 1).toNat < 2 ^ 63) (now' : EventTime) (q' : String) :
    storedPosition ((scheduledScan p sub q now now').run s).2.db q' =
      if q' = q then (now - 1,
        lastPosition p (scanned p (scanMembers q now s) (storedPosition s.db q).1 0 log)
          (storedPosition s.db q).2)
      else storedPosition s.db q' := by
  obtain ⟨db₁, hexp, hrun⟩ := run_scan hd ho h q now now'
  have hexec : executing db₁ = q := by rw [hexp.executing_eq, executing_markExecuting]
  rw [hrun]
  dsimp only
  rw [storedPosition_savePosition (hexec ▸ hq) hlt, hexec, hexp.storedPosition_eq,
    storedPosition_markExecuting]

/-! ### Logs on the clock -/

/-- The clock is past the position of every query, and the positions separate. -/
structure OnClock (sub : Subscriber) (s : State) (log : EventLog) (clock : EventTime) : Prop where
  stored : Stored sub s log
  inOrder : InOrder log clock
  separates : ∀ q, q ≠ "" → Separates log (storedPosition s.db q).1 (storedPosition s.db q).2
  behind : ∀ q, q ≠ "" → (storedPosition s.db q).1 < clock

/-- The id that a scan saves is not before any record that stays. -/
theorem le_lastPosition (ho : p.eventsOptimize = true) {clock : EventTime} (h : InOrder log clock)
    (eid : UInt64) {r : Record} (hr : r ∈ log.records) :
    r.eid ≤ (lastPosition p (log.after eid) eid).toNat := by
  have hsorted : (log.after eid).Pairwise fun a b => a.eid < b.eid := log.increasing.filter _
  rw [lastPosition]
  rcases List.eq_nil_or_concat (log.after eid) with hnil | ⟨init, last, hlast⟩
  · have hnot := List.filter_eq_nil_iff.mp hnil r hr
    rw [hnil]
    simpa using hnot
  · have hmem : last ∈ log.after eid := by
      rw [hlast]
      simp
    obtain ⟨hlog, hafter⟩ := List.mem_filter.mp hmem
    have hbound := h.eid_lt last hlog
    have hval : (UInt64.ofNat last.eid).toNat = last.eid := by
      rw [UInt64.toNat_ofNat']
      exact Nat.mod_eq_of_lt (by omega)
    rw [hlast, List.concat_eq_append, List.getLast?_concat]
    dsimp only
    rw [if_pos ⟨ho, by omega⟩, hval]
    by_cases hr' : eid.toNat < r.eid
    · have hmem' : r ∈ init ++ [last] := by
        rw [← List.concat_eq_append, ← hlast]
        exact List.mem_filter.mpr ⟨hr, by simpa using hr'⟩
      rw [hlast, List.concat_eq_append, List.pairwise_append] at hsorted
      rcases List.mem_append.mp hmem' with hi | hi
      · exact le_of_lt (hsorted.2.2 r hi last (by simp))
      · rw [List.mem_singleton.mp hi]
    · exact (not_lt.mp hr').trans (le_of_lt (of_decide_eq_true hafter))

/-- A scan on the clock reads the records after the position of its query. -/
theorem OnClock.scanned_eq {clock now : EventTime} (ho : p.eventsOptimize = true)
    (h : OnClock sub s log clock) {q : String} (hq : q ≠ "") (hle : clock ≤ now)
    (hlt : now.toNat < 2 ^ 63) :
    scanned p (scanMembers q now s) (storedPosition s.db q).1 0 log =
      (log.expire (scanMembers q now s)).after (storedPosition s.db q).2 := by
  have hsep : Separates log (storedPosition s.db q).1 (scanMembers q now s).optimizeEid := by
    rw [scanMembers_optimizeEid]
    exact h.separates q hq
  rw [(h.inOrder.mono hle hlt).scanned_eq ho (scanMembers_optimizeTime q now s) hsep,
    scanMembers_optimizeEid]

/-- They all lie in the span of the scan. -/
theorem OnClock.span_eq {clock now : EventTime} (ho : p.eventsOptimize = true)
    (h : OnClock sub s log clock) {q : String} (hq : q ≠ "") (hle : clock ≤ now)
    (hlt : now.toNat < 2 ^ 63) :
    (scanned p (scanMembers q now s) (storedPosition s.db q).1 0 log).filter
        (inSpan (storedPosition s.db q).1 0) =
      (log.expire (scanMembers q now s)).after (storedPosition s.db q).2 := by
  rw [h.scanned_eq ho hq hle hlt, List.filter_eq_self]
  intro r hr
  obtain ⟨hmem, hafter⟩ := List.mem_filter.mp hr
  exact (h.inOrder.mono hle hlt).inSpan_eq (h.separates q hq) (mem_keep hmem)
    (of_decide_eq_true hafter)

/-- A batch at the time of the clock keeps the log in order, whatever its outcome. -/
theorem Grown.onClock {clock now : EventTime} {log' : EventLog} {s' : State}
    (hg : Grown sub now log log' s s') (h : OnClock sub s log clock) (hle : clock ≤ now)
    (hlt : now.toNat < 2 ^ 63) (heid : s'.members.lastEid < 2 ^ 63) : OnClock sub s' log' now := by
  obtain ⟨keepBin, eids, hrecords, -⟩ := hg.records
  have hpos : ∀ q, storedPosition s'.db q = storedPosition s.db q := by
    intro q
    refine storedPosition_congr (fun key hkey => hg.agrees.valueAt_eq ?_) q
    rintro (hk | hk | hk)
    · exact hkey.not_eid _ hk
    · exact hkey.not_index hk
    · exact hkey.not_data hk
  have hold := (h.inOrder.mono hle hlt).keep keepBin
  have hnew : ∀ r ∈ recordsAt now eids, r.time = now := by
    intro r hr
    obtain ⟨e, _, rfl⟩ := List.mem_map.mp hr
    rfl
  refine ⟨hg.stored, ⟨?_, ?_, hlt, ?_⟩, ?_, ?_⟩
  · rw [hrecords, List.pairwise_append]
    refine ⟨hold.times, ?_, ?_⟩
    · exact List.pairwise_map.mpr (List.pairwise_of_forall fun _ _ => UInt64.le_refl _)
    · intro a ha b hb
      rw [hnew b hb]
      exact hold.past a ha
  · intro r hr
    rw [hrecords] at hr
    rcases List.mem_append.mp hr with hr | hr
    · exact hold.past r hr
    · rw [hnew r hr]
      exact UInt64.le_refl _
  · intro r hr
    exact (hg.stored.bounded r hr).trans_lt heid
  · intro q hq r hr hafter
    rw [hpos q] at hafter ⊢
    rw [hrecords] at hr
    rcases List.mem_append.mp hr with hr | hr
    · exact h.separates q hq r (mem_keep hr) hafter
    · rw [hnew r hr]
      exact UInt64.lt_of_lt_of_le (h.behind q hq) hle
  · intro q hq
    rw [hpos q]
    exact UInt64.lt_of_lt_of_le (h.behind q hq) hle

theorem sub_one_lt {now clock : EventTime} (hpos : 1 ≤ clock) (hle : clock ≤ now) :
    now - 1 < now := by
  have h1 : (1 : UInt64).toNat = 1 := rfl
  have hone : 1 ≤ now := UInt64.le_trans hpos hle
  have hnat := UInt64.le_iff_toNat_le.mp hone
  rw [UInt64.lt_iff_toNat_lt, UInt64.toNat_sub_of_le _ _ hone, h1]
  omega

/-- A scan on the clock keeps the log in order and the positions separating. -/
theorem OnClock.scan {clock now now' : EventTime} (hd : p.isDaemon = true)
    (ho : p.eventsOptimize = true) (h : OnClock sub s log clock) {q : String} (hq : q ≠ "")
    (hpos : 1 ≤ clock) (hle : clock ≤ now) (hle' : now ≤ now') (hlt : now'.toNat < 2 ^ 63) :
    OnClock sub ((scheduledScan p sub q now now').run s).2
        (log.expire (scanMembers q now s)) now' ∧
      ∀ q', storedPosition ((scheduledScan p sub q now now').run s).2.db q' =
        if q' = q then (now - 1, lastPosition p
          ((log.expire (scanMembers q now s)).after (storedPosition s.db q).2)
            (storedPosition s.db q).2)
        else storedPosition s.db q' := by
  have hnow : now.toNat < 2 ^ 63 := lt_of_le_of_lt (UInt64.le_iff_toNat_le.mp hle') hlt
  have horder : InOrder (log.expire (scanMembers q now s)) now :=
    (h.inOrder.mono hle hnow).keep _
  have htime : (now - 1).toNat < 2 ^ 63 :=
    lt_trans (UInt64.lt_iff_toNat_lt.mp (sub_one_lt hpos hle)) hnow
  have hposition := storedPosition_scan hd ho h.stored hq htime now'
  rw [h.scanned_eq ho hq hle hnow] at hposition
  refine ⟨⟨stored_scan hd ho h.stored q now now', horder.mono hle' hlt, ?_, ?_⟩, hposition⟩
  · intro q' hq' r hr hafter
    rw [hposition q'] at hafter ⊢
    by_cases hname : q' = q
    · rw [if_pos hname] at hafter
      exact absurd (le_lastPosition ho horder (storedPosition s.db q).2 hr) (not_le_of_gt hafter)
    · rw [if_neg hname] at hafter ⊢
      exact h.separates q' hq' r (mem_keep hr) hafter
  · intro q' hq'
    rw [hposition q']
    by_cases hname : q' = q
    · rw [if_pos hname]
      exact UInt64.lt_of_lt_of_le (sub_one_lt hpos hle) hle'
    · rw [if_neg hname]
      exact UInt64.lt_of_lt_of_le (h.behind q' hq') (UInt64.le_trans hle hle')

end Osquery.EventSubscribers
