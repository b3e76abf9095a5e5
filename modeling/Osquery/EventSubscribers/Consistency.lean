import Osquery.EventSubscribers.Queries

/-!
# Consistency of the event store

Whatever a subscriber does, its stored texts stay those of one log whose ids
are not above the last id, and the expire time stays a whole minute. Read as
texts, the index has no repeated bin, every indexed bin has records of its own
minute, every record list belongs to an indexed bin, and no id occurs twice.
-/

namespace Osquery.EventSubscribers

open Foundation.AtomicProgram Foundation.JsonText Foundation.Numeral Foundation.Separated
open Foundation.Grouping Core.BackingStore Core.Conversions Core.Rows

variable {p : Process} {sub : Subscriber} {s : State} {log : EventLog}

/-! ### What every action keeps -/

/-- The stored texts are those of a log that the members fit. -/
structure Stored (sub : Subscriber) (s : State) (log : EventLog) : Prop where
  represents : Represents sub.dbNamespace s.db log
  bounded : ∀ r ∈ log.records, r.eid ≤ s.members.lastEid
  wholeMinute : WholeMinute s.members

theorem represents_empty {ns : String} {db : Database} (h : ∀ key, lookup db kEvents key = none) :
    Represents ns db EventLog.empty := by
  have hval : ∀ key, valueAt db key = "" := by
    intro key
    rw [valueAt, h key]
    rfl
  refine ⟨?_, ?_⟩
  · rw [hval]
    simp [EventLog.bins, EventLog.empty]
  · intro b
    rw [hval]
    simp [EventLog.binRecords, EventLog.empty, group]

theorem mem_keep {keepBin : ℕ → Bool} {r : Record} (h : r ∈ (log.keep keepBin).records) :
    r ∈ log.records := (List.mem_filter.mp h).1

/-- A check for overflow takes whole bins out of the log. -/
theorem Checked.stored {s' : State} (hc : Checked sub.dbNamespace log s s')
    (h : Stored sub s log) : ∃ keepBin, Stored sub s' (log.keep keepBin) := by
  obtain ⟨e, keepBin, hm, he, hrep, _⟩ := hc
  refine ⟨keepBin, hrep, ?_, ?_⟩
  · intro r hr
    rw [hm]
    exact h.bounded r (mem_keep hr)
  · rw [WholeMinute, hm]
    exact he

theorem Checked.lastEid_eq {s' : State} {ns : String} (hc : Checked ns log s s') :
    s'.members.lastEid = s.members.lastEid := by
  obtain ⟨e, _, hm, _⟩ := hc
  rw [hm]
  rfl

theorem Checked.schedule {s' : State} {ns : String} (hc : Checked ns log s s') :
    s'.members.queryCount = s.members.queryCount ∧ s'.members.queries = s.members.queries := by
  obtain ⟨e, _, hm, _⟩ := hc
  rw [hm]
  exact ⟨rfl, rfl⟩

theorem Counted.schedule {s₁ : State} {ns : String} (hc : Counted ns s s₁) :
    s₁.members.queryCount = s.members.queryCount ∧ s₁.members.queries = s.members.queries := by
  rw [hc.members]
  exact ⟨rfl, rfl⟩

theorem Checked.agrees {s' : State} {ns : String} (hc : Checked ns log s s') :
    AgreesExcept (fun key => IsIndex ns key ∨ IsData key) s.db s'.db := by
  obtain ⟨_, _, _, _, _, hagree⟩ := hc
  exact hagree

/-- Drawing ids keeps the log. -/
theorem Counted.stored {s₁ : State} (hc : Counted sub.dbNamespace s s₁) (h : Stored sub s log) :
    Stored sub s₁ log :=
  ⟨hc.represents h.represents, fun r hr => (h.bounded r hr).trans hc.mono,
    hc.wholeMinute h.wholeMinute⟩

/-- The ids of a batch are above those of the log. -/
theorem Drawn.fresh {rows : List Row} {batch : Batch} {s₁ : State} (hd : Drawn rows batch s s₁)
    (h : ∀ r ∈ log.records, r.eid ≤ s.members.lastEid) :
    ∀ a ∈ log.records, ∀ e ∈ batch.map Prod.snd, a.eid < e :=
  fun a ha e he => (h a ha).trans_lt (hd.bounds e he).1

/-- A stored batch extends the log by its records. -/
theorem represents_storedBatch {ns : String} {db : Database} (h : Represents ns db log)
    (time : EventTime) {batch : Batch} (hne : batch ≠ [])
    (hpair : (batch.map Prod.snd).Pairwise (· < ·))
    (hfresh : ∀ a ∈ log.records, ∀ e ∈ batch.map Prod.snd, a.eid < e) :
    Represents ns (storedBatch p ns time batch log db)
      (log.record time (batch.map Prod.snd) hpair hfresh) :=
  represents_recordData time (by simpa using hne) hpair hfresh (represents_batchData h time batch)

/-- The keys that recording and expiry write. -/
def IsEventKey (ns key : String) : Prop := key = eidKey ns ∨ IsIndex ns key ∨ IsData key

theorem recordData_isIndex {ns : String} {time : EventTime} {eids : List ℕ} :
    ∀ d ∈ recordData ns log time eids, IsIndex ns d.1 := by
  intro d hd
  rw [recordData, List.mem_append] at hd
  rcases hd with hd | hd
  · split at hd
    · exact absurd hd List.not_mem_nil
    · rw [List.mem_singleton.mp hd]
      exact Or.inl rfl
  · rw [List.mem_singleton.mp hd]
    exact Or.inr ⟨_, rfl⟩

theorem agreesExcept_storedBatch (p : Process) (ns : String) (time : EventTime) (batch : Batch)
    (log : EventLog) (db : Database) :
    AgreesExcept (fun key => IsIndex ns key ∨ IsData key) db
      (storedBatch p ns time batch log db) := by
  refine AgreesExcept.trans (agreesExcept_putBatch _ db _ ?_) (agreesExcept_putBatch _ _ _ ?_)
  · exact fun d hd => Or.inr (batchData_isData d hd)
  · exact fun d hd => Or.inl (recordData_isIndex d hd)

/-- What a batch did to a log: whole bins may have gone, and records of new ids
at one time may have been appended. -/
structure Grown (sub : Subscriber) (time : EventTime) (log log' : EventLog) (s s' : State) :
    Prop where
  stored : Stored sub s' log'
  records : ∃ keepBin eids, log'.records = (log.keep keepBin).records ++ recordsAt time eids ∧
    ∀ e ∈ eids, s.members.lastEid < e
  mono : s.members.lastEid ≤ s'.members.lastEid
  schedule : s'.members.queryCount = s.members.queryCount ∧ s'.members.queries = s.members.queries
  agrees : AgreesExcept (IsEventKey sub.dbNamespace) s.db s'.db

/-- Adding a batch leaves the texts of a log, whether it fails or not. -/
theorem grown_addBatch (p : Process) (h : Stored sub s log) (rows : List Row)
    (custom now : EventTime) :
    ∃ log', Grown sub (eventTime custom now) log log' s
      ((addBatch p sub rows custom now).run s).2 := by
  rcases run_addBatch p h.represents h.wholeMinute rows custom now with
    ⟨e, s₁, s', hrun, hcount, hchecked⟩ | ⟨batch, s₁, s₂, hdrawn, hne, hcount, -, hcheck, hrun⟩
  · obtain ⟨keepBin, hstored⟩ := hchecked.stored (hcount.stored h)
    rw [hrun]
    refine ⟨_, hstored, ⟨keepBin, [], ?_, by simp⟩, ?_, ?_, ?_⟩
    · simp [recordsAt]
    · exact hcount.mono.trans_eq hchecked.lastEid_eq.symm
    · exact ⟨hchecked.schedule.1.trans hcount.schedule.1, hchecked.schedule.2.trans hcount.schedule.2⟩
    · exact (hcount.agrees.mono fun _ hk => Or.inl hk).trans
        (hchecked.agrees.mono fun _ hk => Or.inr hk)
  · have h₁ := hcount.stored h
    have hchecked := checked_checkpoint p h₁.represents h₁.wholeMinute
    rw [hcheck] at hchecked
    obtain ⟨keepBin, h₂⟩ := hchecked.stored h₁
    have hfresh := hdrawn.fresh fun r (hr : r ∈ (log.keep keepBin).records) =>
      h.bounded r (mem_keep hr)
    rw [hrun _ h₂.represents]
    refine ⟨_, ⟨represents_storedBatch h₂.represents _ hne hdrawn.increasing hfresh, ?_,
      h₂.wholeMinute⟩, ⟨keepBin, _, rfl, fun e he => (hdrawn.bounds e he).1⟩, ?_, ?_, ?_⟩
    · intro r hr
      rcases List.mem_append.mp hr with hr | hr
      · exact h₂.bounded r hr
      · obtain ⟨e, he, rfl⟩ := List.mem_map.mp hr
        exact (hdrawn.bounds e he).2.trans_eq hchecked.lastEid_eq.symm
    · exact hcount.mono.trans_eq hchecked.lastEid_eq.symm
    · exact ⟨hchecked.schedule.1.trans hcount.schedule.1, hchecked.schedule.2.trans hcount.schedule.2⟩
    · exact ((hcount.agrees.mono fun _ hk => Or.inl hk).trans
        (hchecked.agrees.mono fun _ hk => Or.inr hk)).trans
          ((agreesExcept_storedBatch p _ _ _ _ _).mono fun _ hk => Or.inr hk)

/-! ### Positions are stored elsewhere -/

/-- The keys of the positions of queries. -/
def IsPosition (key : String) : Prop := ∃ name, key = timeKey name ∨ key = positionKey name

theorem IsPosition.head {key : String} (h : IsPosition key) : key.toList.head? = some 'o' := by
  obtain ⟨name, rfl | rfl⟩ := h
  · simp [timeKey]
  · simp [positionKey]

theorem indexKey_not_position (ns : String) : ¬IsPosition (indexKey ns) := by
  intro h
  have hhead := h.head
  simp [indexKey] at hhead

theorem recordKey_not_position (ns x : String) : ¬IsPosition (recordKey ns x) := by
  intro h
  have hhead := h.head
  simp [recordKey] at hhead

theorem agreesExcept_savePosition (db : Database) (time : EventTime) (eid : UInt64) :
    AgreesExcept IsPosition db (savePosition db time eid) := by
  rw [savePosition]
  split
  · exact AgreesExcept.refl _ _
  · have htime := agreesExcept_setValue db (timeKey (executing db)) (toText time.toNat)
    have heid := agreesExcept_setValue (Ephemeral.setValue db kEvents (timeKey (executing db))
      (toText time.toNat)) (positionKey (executing db)) (toIndex eid.toNat)
    exact (htime.mono fun key hk => ⟨_, Or.inl hk⟩).trans (heid.mono fun key hk => ⟨_, Or.inr hk⟩)

theorem agreesExcept_afterSave (p : Process) (m : Members) (db : Database) :
    AgreesExcept IsPosition db (afterSave p m db) := by
  rw [afterSave]
  split
  · exact agreesExcept_savePosition db _ _
  · exact AgreesExcept.refl _ _

theorem wholeMinute_nextExpire (sub : Subscriber) (now : EventTime) {m : Members}
    (h : WholeMinute m) : (nextExpire sub now m).toNat % 60 = 0 := by
  rw [nextExpire]
  split
  · exact wholeMinute_sub _
  · exact h

/-- A scan writes keys of events and of positions only. -/
theorem valueAt_get (p : Process) (h : Stored sub s log) (start stop now : EventTime) {key : String}
    (hkey : ¬IsEventKey sub.dbNamespace key) (hpos : ¬IsPosition key) :
    valueAt ((get p sub start stop now).run s).2.db key = valueAt s.db key := by
  obtain ⟨db₁, hexp, hrun⟩ := run_get p h.represents h.wholeMinute start stop now
  rw [hrun]
  exact ((agreesExcept_afterSave p _ db₁).valueAt_eq hpos).trans
    (hexp.agreesExcept.valueAt_eq fun hk => hkey (Or.inr hk))

/-- A scan leaves the log without the bins that expired. -/
theorem stored_get (p : Process) (h : Stored sub s log) (start stop now : EventTime) :
    Stored sub ((get p sub start stop now).run s).2 (log.expire s.members) := by
  obtain ⟨db₁, hexp, hrun⟩ := run_get p h.represents h.wholeMinute start stop now
  rw [hrun]
  refine ⟨?_, ?_, ?_⟩
  · exact hexp.represents.congr (agreesExcept_afterSave p _ db₁) (indexKey_not_position _)
      fun _ => recordKey_not_position _ _
  · intro r hr
    exact h.bounded r (mem_keep hr)
  · exact wholeMinute_nextExpire sub now h.wholeMinute

theorem Stored.beginScan (h : Stored sub s log) (db : Database) (now : EventTime) :
    Stored sub ⟨s.db, EventSubscribers.beginScan db now s.members⟩ log :=
  ⟨h.represents, h.bounded, h.wholeMinute⟩

theorem stored_genTable (p : Process) (h : Stored sub s log) (constraints : List Constraint)
    (now now' : EventTime) :
    ∃ log', Stored sub ((genTable p sub constraints now now').run s).2 log' := by
  obtain ⟨start, stop, m, hrun, hm⟩ := run_genTable p sub constraints now now' s
  rw [hrun]
  rcases hm with rfl | ⟨-, rfl⟩
  · exact ⟨_, stored_get p h start stop now'⟩
  · exact ⟨_, stored_get p (h.beginScan s.db now) start stop now'⟩

/-- The name of the executing query is stored in another domain. -/
theorem valueAt_setExecuting (db : Database) (name key : String) :
    valueAt (Ephemeral.setValue db kPersistentSettings kExecutingQuery name) key =
      valueAt db key := by
  have hdomain : kPersistentSettings ≠ kEvents := by decide
  rw [valueAt, lookup_setValue, if_neg fun h => hdomain h.1, valueAt]

/-! ### Actions -/

/-- What happens to a subscriber, one call at a time: its own calls, a query
that starts executing, and the schedule fields that a new configuration sets. -/
inductive Action
  | addBatch (row_list : List Row) (custom_event_time now : EventTime)
  | get (start stop now : EventTime)
  | genTable (constraints : List Constraint) (now now' : EventTime)
  | expireCheck
  | recordQueryStart (name : String)
  | configure (minExpiration : UInt64) (queryCount : ℕ) (queries : Finset String)

/-- The state after an action, also when it ended with a failure. -/
def Action.exec (p : Process) (sub : Subscriber) : Action → State → State
  | .addBatch row_list custom_event_time now, s =>
      ((EventSubscribers.addBatch p sub row_list custom_event_time now).run s).2
  | .get start stop now, s => ((EventSubscribers.get p sub start stop now).run s).2
  | .genTable constraints now now', s =>
      ((EventSubscribers.genTable p sub constraints now now').run s).2
  | .expireCheck, s => ((EventSubscribers.expireCheck p sub).run s).2
  | .recordQueryStart name, s =>
      ⟨Ephemeral.setValue s.db kPersistentSettings kExecutingQuery name, s.members⟩
  | .configure minExpiration queryCount queries, s =>
      ⟨s.db, { s.members with minExpiration, queryCount, queries }⟩

/-- The state after a list of actions. -/
def execAll (p : Process) (sub : Subscriber) (actions : List Action) (s : State) : State :=
  actions.foldl (fun s a => a.exec p sub s) s

/-- The state of a new subscriber over an empty database. -/
def initial : State := ⟨∅, {}⟩

theorem lookup_empty (d key : String) : lookup ∅ d key = none := by
  simp [lookup, Ephemeral.domainOf]

theorem stored_initial (sub : Subscriber) : Stored sub initial EventLog.empty := by
  refine ⟨represents_empty fun key => lookup_empty _ _, ?_, rfl⟩
  intro r hr
  exact absurd hr List.not_mem_nil

/-- Every action leaves the texts of a log. -/
theorem stored_exec (p : Process) (h : Stored sub s log) (a : Action) :
    ∃ log', Stored sub (a.exec p sub s) log' := by
  cases a with
  | addBatch rows custom now =>
      obtain ⟨log', hgrown⟩ := grown_addBatch p h rows custom now
      exact ⟨log', hgrown.stored⟩
  | get start stop now => exact ⟨_, stored_get p h start stop now⟩
  | genTable constraints now now' => exact stored_genTable p h constraints now now'
  | expireCheck =>
      obtain ⟨keepBin, hstored⟩ := (checked_expireCheck p h.represents h.wholeMinute).stored h
      exact ⟨_, hstored⟩
  | recordQueryStart name =>
      refine ⟨log, ?_, h.bounded, h.wholeMinute⟩
      exact h.represents.of_valueAt (valueAt_setExecuting _ _ _) fun x => valueAt_setExecuting _ _ _
  | configure minExpiration queryCount queries =>
      exact ⟨log, h.represents, h.bounded, h.wholeMinute⟩

/-- An action writes keys of events and of positions only. -/
theorem valueAt_exec (p : Process) (h : Stored sub s log) (a : Action) {key : String}
    (hkey : ¬IsEventKey sub.dbNamespace key) (hpos : ¬IsPosition key) :
    valueAt (a.exec p sub s).db key = valueAt s.db key := by
  cases a with
  | addBatch rows custom now =>
      obtain ⟨log', hgrown⟩ := grown_addBatch p h rows custom now
      exact hgrown.agrees.valueAt_eq hkey
  | get start stop now => exact valueAt_get p h start stop now hkey hpos
  | genTable constraints now now' =>
      obtain ⟨start, stop, m, hrun, hm⟩ := run_genTable p sub constraints now now' s
      rw [Action.exec, hrun]
      rcases hm with rfl | ⟨-, rfl⟩
      · exact valueAt_get p h start stop now' hkey hpos
      · exact valueAt_get p (h.beginScan s.db now) start stop now' hkey hpos
  | expireCheck =>
      have hchecked := checked_expireCheck p h.represents h.wholeMinute
      exact hchecked.agrees.valueAt_eq fun hk => hkey (Or.inr hk)
  | recordQueryStart name => exact valueAt_setExecuting _ _ _
  | configure minExpiration queryCount queries => rfl

/-- Only numerals name bins that have a record list. -/
def Tidy (ns : String) (db : Database) : Prop :=
  ∀ x, (∀ b, x ≠ toText b) → valueAt db (recordKey ns x) = ""

theorem tidy_exec (p : Process) (h : Stored sub s log) (htidy : Tidy sub.dbNamespace s.db)
    (a : Action) : Tidy sub.dbNamespace (a.exec p sub s).db := by
  intro x hx
  rw [valueAt_exec p h a ?_ (recordKey_not_position _ _), htidy x hx]
  rintro (hk | (hk | ⟨b, hk⟩) | hk)
  · exact eidKey_not_record _ _ hk
  · exact indexKey_ne_recordKey _ _ hk
  · exact hx b (recordKey_inj.mp hk)
  · exact recordKey_not_isData _ _ hk

theorem stored_execAll (p : Process) (actions : List Action) (h : Stored sub s log) :
    ∃ log', Stored sub (execAll p sub actions s) log' := by
  induction actions generalizing s log with
  | nil => exact ⟨log, h⟩
  | cons a rest ih =>
      obtain ⟨log₁, h₁⟩ := stored_exec p h a
      exact ih h₁

theorem tidy_execAll (p : Process) (actions : List Action) (h : Stored sub s log)
    (htidy : Tidy sub.dbNamespace s.db) : Tidy sub.dbNamespace (execAll p sub actions s).db := by
  induction actions generalizing s log with
  | nil => exact htidy
  | cons a rest ih =>
      obtain ⟨log₁, h₁⟩ := stored_exec p h a
      exact ih h₁ (tidy_exec p h htidy a)

/-! ### The stored texts -/

/-- The bins of the stored index. -/
def indexedBins (ns : String) (db : Database) : List String :=
  if valueAt db (indexKey ns) = "" then [] else splitAnyOf (valueAt db (indexKey ns)) ","

/-- The entries of the stored record list of a bin. -/
def recordEntries (ns : String) (db : Database) (bin : String) : List String :=
  if valueAt db (recordKey ns bin) = "" then []
  else splitAnyOf (valueAt db (recordKey ns bin)) ","

/-- An entry `eid:time` with these two parts. -/
def IsEntry (entry eid : String) (time : ℕ) : Prop := entry = eid ++ ":" ++ toText time

/-- Index and record lists belong together. -/
structure Consistent (ns : String) (db : Database) : Prop where
  bins_nodup : (indexedBins ns db).Nodup
  bin_recorded : ∀ bin ∈ indexedBins ns db, recordEntries ns db bin ≠ [] ∧
    ∀ entry ∈ recordEntries ns db bin, ∃ eid time, IsEntry entry eid time ∧
      toText (time / 60) = bin
  eid_once : ∀ bin, (recordEntries ns db bin).Pairwise fun entry entry' =>
    ∀ eid time time', IsEntry entry eid time → ¬IsEntry entry' eid time'
  eid_one_bin : ∀ bin bin', bin ≠ bin' → ∀ entry ∈ recordEntries ns db bin,
    ∀ entry' ∈ recordEntries ns db bin', ∀ eid time time',
      IsEntry entry eid time → ¬IsEntry entry' eid time'
  recorded_indexed : ∀ bin, recordEntries ns db bin ≠ [] → bin ∈ indexedBins ns db

/-- The two parts of an entry are the id and the time of its record. -/
theorem Record.isEntry_iff {r : Record} {eid : String} {time : ℕ} :
    IsEntry r.text eid time ↔ eid = toIndex r.eid ∧ time = r.time.toNat := by
  constructor
  · intro h
    have hl : (toIndex r.eid).toList ++ ':' :: (toText r.time.toNat).toList =
        eid.toList ++ ':' :: (toText time).toList := by
      simpa [Record.text] using congrArg String.toList h
    have hparts := (List.append_cons_inj_of_notMem
      (fun hc => (toIndex_chars hc).2.1 rfl) (fun hc => (toText_chars hc).2.1 rfl)).mp hl
    exact ⟨(String.toList_inj.mp hparts.1).symm, (toText_inj.mp (String.toList_inj.mp hparts.2.2)).symm⟩
  · rintro ⟨rfl, rfl⟩
    rfl

theorem Represents.indexedBins_eq {ns : String} {db : Database} (h : Represents ns db log) :
    indexedBins ns db = log.bins.map toText := by
  rw [indexedBins, h.index]
  by_cases hnil : log.bins = []
  · rw [hnil]
    simp
  · rw [if_neg (join_bins_eq_empty.not.mpr hnil), splitAnyOf_bins hnil]

theorem Represents.recordEntries_eq {ns : String} {db : Database} (h : Represents ns db log)
    (b : ℕ) : recordEntries ns db (toText b) = (log.binRecords b).map Record.text := by
  rw [recordEntries, h.records b]
  by_cases hnil : log.binRecords b = []
  · rw [hnil]
    simp
  · rw [if_neg (join_records_eq_empty.not.mpr hnil)]
    apply splitAnyOf_join rfl (by simpa using hnil)
    intro x hx hc
    obtain ⟨r, _, rfl⟩ := List.mem_map.mp hx
    exact (Record.text_chars hc).1 rfl

/-- An entry is that of a record in its bin. -/
theorem Represents.bin_of_entry {ns : String} {db : Database} (h : Represents ns db log)
    (htidy : Tidy ns db) {bin entry : String} (hentry : entry ∈ recordEntries ns db bin) :
    ∃ r ∈ log.records, bin = toText r.bin ∧ entry = r.text := by
  by_cases hbin : ∃ b, bin = toText b
  · obtain ⟨b, rfl⟩ := hbin
    rw [h.recordEntries_eq] at hentry
    obtain ⟨r, hr, rfl⟩ := List.mem_map.mp hentry
    obtain ⟨hmem, hb⟩ := (mem_group Record.bin).mp hr
    exact ⟨r, hmem, by rw [hb], rfl⟩
  · rw [recordEntries, if_pos (htidy bin fun b hb => hbin ⟨b, hb⟩)] at hentry
    exact absurd hentry List.not_mem_nil

theorem Record.text_inj {r r' : Record} (h : r.text = r'.text) : r = r' := by
  have hentry : IsEntry r.text (toIndex r'.eid) r'.time.toNat := h
  obtain ⟨heid, htime⟩ := Record.isEntry_iff.mp hentry
  obtain ⟨eid, time⟩ := r
  obtain ⟨eid', time'⟩ := r'
  rw [Record.mk.injEq]
  exact ⟨(toIndex_inj.mp heid).symm, UInt64.toNat_inj.mp htime.symm⟩

theorem EventLog.eq_of_records {log log' : EventLog} (h : log.records = log'.records) :
    log = log' := by
  cases log
  cases log'
  cases h
  rfl

/-- The stored texts determine the log. -/
theorem Represents.unique {ns : String} {db : Database} {log' : EventLog}
    (h : Represents ns db log) (h' : Represents ns db log') : log = log' := by
  have hbins : ∀ b, log.binRecords b = log'.binRecords b := by
    intro b
    have htexts := (h.recordEntries_eq b).symm.trans (h'.recordEntries_eq b)
    exact List.map_injective_iff.mpr (fun _ _ => Record.text_inj) htexts
  have hmem : ∀ r, r ∈ log.records ↔ r ∈ log'.records := by
    intro r
    have hgroup := congrArg (r ∈ ·) (hbins r.bin)
    simpa [EventLog.binRecords] using hgroup
  have hnodup : ∀ l : EventLog, l.records.Nodup := fun l =>
    l.increasing.imp fun {a b} (hlt : a.eid < b.eid) heq => hlt.ne (congrArg Record.eid heq)
  apply EventLog.eq_of_records
  refine ((List.perm_ext_iff_of_nodup (hnodup log) (hnodup log')).mpr hmem).eq_of_pairwise ?_
    log.increasing log'.increasing
  intro a b _ _ hab hba
  exact absurd hab (not_lt_of_gt hba)

/-- Two records of a log with the same id are one. -/
theorem EventLog.eq_of_eid {r r' : Record} (hr : r ∈ log.records) (hr' : r' ∈ log.records)
    (heid : r.eid = r'.eid) : r = r' := by
  have hnodup : (log.records.map Record.eid).Nodup :=
    List.pairwise_map.mpr (log.increasing.imp fun h => h.ne)
  exact List.inj_on_of_nodup_map hnodup hr hr' heid

theorem entry_eid_inj {r r' : Record} (hr : r ∈ log.records) (hr' : r' ∈ log.records)
    {eid : String} {time time' : ℕ} (h : IsEntry r.text eid time) (h' : IsEntry r'.text eid time') :
    r = r' := by
  obtain ⟨rfl, _⟩ := Record.isEntry_iff.mp h
  obtain ⟨heid, _⟩ := Record.isEntry_iff.mp h'
  exact EventLog.eq_of_eid hr hr' (toIndex_inj.mp heid)

/-- The texts of a log are consistent. -/
theorem Represents.consistent {ns : String} {db : Database} (h : Represents ns db log)
    (htidy : Tidy ns db) : Consistent ns db := by
  refine ⟨?_, ?_, ?_, ?_, ?_⟩
  · rw [h.indexedBins_eq]
    exact log.nodup_bins.map fun _ _ => toText_inj.mp
  · intro bin hbin
    rw [h.indexedBins_eq] at hbin
    obtain ⟨b, hb, rfl⟩ := List.mem_map.mp hbin
    rw [h.recordEntries_eq]
    refine ⟨List.map_eq_nil_iff.not.mpr ((group_ne_nil_iff Record.bin).mpr hb), ?_⟩
    intro entry hentry
    obtain ⟨r, hr, rfl⟩ := List.mem_map.mp hentry
    refine ⟨_, _, Record.isEntry_iff.mpr ⟨rfl, rfl⟩, ?_⟩
    exact congrArg toText ((mem_group Record.bin).mp hr).2
  · intro bin
    by_cases hbin : ∃ b, bin = toText b
    · obtain ⟨b, rfl⟩ := hbin
      rw [h.recordEntries_eq, List.pairwise_map]
      refine (log.increasing.filter _).imp ?_
      intro r r' hlt eid time time' hr hr'
      obtain ⟨rfl, _⟩ := Record.isEntry_iff.mp hr
      obtain ⟨heid, _⟩ := Record.isEntry_iff.mp hr'
      exact hlt.ne (toIndex_inj.mp heid)
    · rw [recordEntries, if_pos (htidy bin fun b hb => hbin ⟨b, hb⟩)]
      exact List.Pairwise.nil
  · intro bin bin' hne entry hentry entry' hentry' eid time time' he he'
    obtain ⟨r, hr, rfl, rfl⟩ := h.bin_of_entry htidy hentry
    obtain ⟨r', hr', rfl, rfl⟩ := h.bin_of_entry htidy hentry'
    exact hne (congrArg (fun r => toText r.bin) (entry_eid_inj hr hr' he he'))
  · intro bin hbin
    obtain ⟨entry, hentry⟩ := List.exists_mem_of_ne_nil _ hbin
    obtain ⟨r, hr, rfl, _⟩ := h.bin_of_entry htidy hentry
    rw [h.indexedBins_eq]
    exact List.mem_map_of_mem ((mem_keys Record.bin).mpr ⟨r, hr, rfl⟩)

/-- Index and record lists belong together in every reachable state. -/
theorem execAll_consistent (p : Process) (sub : Subscriber) (actions : List Action) :
    Consistent sub.dbNamespace (execAll p sub actions initial).db := by
  obtain ⟨log, h⟩ := stored_execAll p actions (stored_initial sub)
  refine h.represents.consistent (tidy_execAll p actions (stored_initial sub) fun x _ => ?_)
  rw [initial, valueAt, lookup_empty]
  rfl

end Osquery.EventSubscribers
