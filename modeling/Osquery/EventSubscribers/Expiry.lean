import Osquery.EventSubscribers.EventIndex

/-!
# Expiry of bins

Reading the bins of a range expires those that lie wholly before the expire
time, once every scheduled query has run. The expire time is a multiple of a
minute in every reachable state, so a bin is expired as a whole or not at all,
and expiry takes the records of whole bins out of the log. The rows of an
expired bin are deleted as one range of keys.
-/

namespace Osquery.EventSubscribers

open Foundation.AtomicProgram Foundation.JsonText Foundation.Numeral Foundation.Separated
open Foundation.Grouping Core.BackingStore Core.Conversions Core.Rows

variable {p : Process} {sub : Subscriber} {s : State} {log : EventLog}

/-! ### Single operations -/

@[simp] theorem run_readMembers (s : State) : readMembers.run s = (s.members, s) := by
  rw [readMembers, Prog.run_perform]
  rfl

@[simp] theorem run_updateMembers (f : Members → Members) (s : State) :
    (updateMembers f).run s = ((), { s with members := f s.members }) := rfl

@[simp] theorem run_readEvents (key : String) (s : State) :
    (readValue kEvents key : Prog Access String).run s = (valueAt s.db key, s) := by
  have hget : (getDatabaseValue kEvents key : Prog Access _).run s =
      (Ephemeral.get s.db kEvents key, s) := rfl
  rw [readValue, Prog.run_map, hget, toOption_get, valueAt]

@[simp] theorem run_setEvents (key value : String) (s : State) :
    (setDatabaseValue kEvents key value : Prog Access _).run s =
      (.ok (), { s with db := Ephemeral.setValue s.db kEvents key value }) := rfl

@[simp] theorem run_batchEvents (data : List (String × String)) (s : State) :
    (setDatabaseBatch kEvents data : Prog Access _).run s =
      (.ok (), { s with db := Ephemeral.putBatch s.db kEvents data }) := rfl

@[simp] theorem run_deleteEvents (key : String) (s : State) :
    (deleteDatabaseValue kEvents key : Prog Access _).run s =
      (.ok (), { s with db := Ephemeral.remove s.db kEvents key }) := rfl

/-- All scheduled queries that were counted have run. -/
def allExecuted (m : Members) : Bool := decide (m.queryCount ≤ m.queries.card)

@[simp] theorem run_executedAllQueries (s : State) :
    executedAllQueries.run s = (allExecuted s.members, s) := by
  rw [executedAllQueries, Prog.run_bind, run_readMembers]
  rfl

/-! ### Records of a bin -/

/-- A record is not before the optimization position. -/
def passes (p : Process) (m : Members) (optimize : Bool) (r : Record) : Bool :=
  !(p.eventsOptimize && optimize && decide (readTime r.time ≤ m.optimizeTime + 1) &&
    decide (readEid r.eid ≤ m.optimizeEid))

/-- A record as the code hands it on. -/
def Record.asEventRecord (r : Record) : EventRecord := (toIndex r.eid, readTime r.time)

theorem selectRecord_text (m : Members) (optimize : Bool) (r : Record) :
    selectRecord p m optimize r.text =
      if passes p m optimize r then some r.asEventRecord else none := by
  rw [selectRecord, split_text]
  simp only [timeFromRecord_time, timeFromRecord_toIndex, passes, Bool.not_eq_true',
    Record.asEventRecord]
  cases (p.eventsOptimize && optimize && decide (readTime r.time ≤ m.optimizeTime + 1) &&
    decide (readEid r.eid ≤ m.optimizeEid)) <;> rfl

theorem filterMap_selectRecord (m : Members) (optimize : Bool) (rs : List Record) :
    (rs.map Record.text).filterMap (selectRecord p m optimize) =
      (rs.filter (passes p m optimize)).map Record.asEventRecord := by
  rw [List.filterMap_map, ← List.filterMap_eq_map, ← List.filterMap_eq_filter,
    List.filterMap_filterMap]
  apply List.filterMap_congr
  intro r _
  simp only [Function.comp_apply, selectRecord_text, Option.guard]
  split <;> simp

/-- Reading bins returns the records that pass, bin by bin, and changes nothing. -/
theorem run_getRecords (h : ∀ b, valueAt s.db (recordKey sub.dbNamespace (toText b)) =
      join ((log.binRecords b).map Record.text) ",") (bs : List ℕ) (optimize : Bool) :
    (getRecords p sub (bs.map fun b => "60." ++ toText b) optimize).run s =
      ((bs.flatMap fun b => (log.binRecords b).filter (passes p s.members optimize)).map
        Record.asEventRecord, s) := by
  induction bs with
  | nil => rfl
  | cons b rest ih =>
      simp only [List.map_cons, getRecords, Prog.run_bind, run_readEvents, run_readMembers, ih,
        Prog.run_pure, List.flatMap_cons, List.map_append, recordKey_eq, h b, split_records,
        filterMap_selectRecord]
      split
      · rename_i hempty
        rw [join_records_eq_empty.mp hempty]
        rfl
      · rfl

/-! ### Removing keys -/

/-- A database from which exactly the keys of a set have been removed. -/
structure Removes (P : String → Prop) (db db' : Database) : Prop where
  gone : ∀ key, P key → lookup db' kEvents key = none
  kept : ∀ d key, ¬(d = kEvents ∧ P key) → lookup db' d key = lookup db d key

theorem Removes.refl (db : Database) : Removes (fun _ => False) db db :=
  ⟨fun _ h => h.elim, fun _ _ _ => rfl⟩

theorem Removes.trans {P Q : String → Prop} {db db' db'' : Database} (h : Removes P db db')
    (h' : Removes Q db' db'') : Removes (fun key => P key ∨ Q key) db db'' := by
  constructor
  · intro key hkey
    by_cases hq : Q key
    · exact h'.gone key hq
    · rw [h'.kept kEvents key fun hk => hq hk.2]
      exact h.gone key (hkey.resolve_right hq)
  · intro d key hkey
    rw [h'.kept d key fun hk => hkey ⟨hk.1, Or.inr hk.2⟩,
      h.kept d key fun hk => hkey ⟨hk.1, Or.inl hk.2⟩]

theorem Removes.congr {P Q : String → Prop} {db db' : Database} (h : Removes P db db')
    (hPQ : ∀ key, P key ↔ Q key) : Removes Q db db' := by
  obtain rfl : P = Q := funext fun key => propext (hPQ key)
  exact h

theorem removes_remove (db : Database) (key : String) :
    Removes (fun k => k = key) db (Ephemeral.remove db kEvents key) := by
  constructor
  · rintro k rfl
    rw [lookup_remove, if_pos ⟨rfl, rfl⟩]
  · intro d k hk
    rw [lookup_remove, if_neg]
    rintro ⟨rfl, rfl⟩
    exact hk ⟨rfl, rfl⟩

theorem removes_removeRange (db : Database) (low high : String) :
    Removes (fun k => low ≤ k ∧ k ≤ high) db (Ephemeral.removeRange db kEvents low high) := by
  constructor
  · rintro k hk
    rw [lookup_removeRange, if_pos ⟨rfl, hk⟩]
  · intro d k hk
    rw [lookup_removeRange, if_neg]
    rintro ⟨rfl, h⟩
    exact hk ⟨rfl, h⟩

/-- A value that was not removed reads as before. -/
theorem Removes.valueAt_eq {P : String → Prop} {db db' : Database} (h : Removes P db db')
    {key : String} (hkey : ¬P key) : valueAt db' key = valueAt db key := by
  rw [valueAt, valueAt, h.kept kEvents key fun hk => hkey hk.2]

theorem Removes.valueAt_gone {P : String → Prop} {db db' : Database} (h : Removes P db db')
    {key : String} (hkey : P key) : valueAt db' key = "" := by
  rw [valueAt, h.gone key hkey]
  rfl

/-! ### Deleting the rows of a bin -/

/-- The data keys that go with the records of an expired bin: the one of a
single record that is not after the expire time, or the whole range of keys
from the first to the last record. -/
def Deleted (ns : String) (e : EventTime) : List Record → String → Prop
  | [], _ => False
  | [r], key => readTime r.time ≤ e ∧ key = dataKey ns (toIndex r.eid)
  | first :: second :: rest, key => dataKey ns (toIndex first.eid) ≤ key ∧
      key ≤ dataKey ns (toIndex ((second :: rest).getLast (List.cons_ne_nil _ _)).eid)

theorem dataKey_isPrefix (ns eid : String) : "data.".toList <+: (dataKey ns eid).toList := by
  simp [dataKey]

/-- Only keys with the common beginning of the data keys are deleted. -/
theorem Deleted.isPrefix_of {ns : String} {e : EventTime} {rs : List Record} {key : String}
    {pre : String} (hpre : ∀ eid, pre.toList <+: (dataKey ns eid).toList) (h : Deleted ns e rs key) :
    pre.toList <+: key.toList := by
  match rs, h with
  | [r], h =>
      rw [h.2]
      exact hpre _
  | _ :: _ :: _, h => exact isPrefix_of_between (hpre _) (hpre _) h.1 h.2

/-- Only data keys are deleted. -/
theorem Deleted.isPrefix {ns : String} {e : EventTime} {rs : List Record} {key : String}
    (h : Deleted ns e rs key) : "data.".toList <+: key.toList :=
  h.isPrefix_of (dataKey_isPrefix ns)

theorem not_data_of_head {key : String} (c : Char) (rest : String)
    (hkey : key.toList = c :: rest.toList) (hc : c ≠ 'd') : ¬"data.".toList <+: key.toList := by
  intro h
  rw [hkey] at h
  have h' : 'd' :: ['a', 't', 'a', '.'] <+: c :: rest.toList := h
  exact hc (List.cons_prefix_cons.mp h').1.symm

theorem indexKey_not_data (ns : String) : ¬"data.".toList <+: (indexKey ns).toList := by
  refine not_data_of_head 'i' ("ndexes." ++ ns ++ ".60") ?_ (by decide)
  simp [indexKey]

theorem recordKey_not_data (ns x : String) : ¬"data.".toList <+: (recordKey ns x).toList := by
  refine not_data_of_head 'r' ("ecords." ++ ns ++ ".60." ++ x) ?_ (by decide)
  simp [recordKey]

theorem run_dropExpired_single (sub : Subscriber) (r : Record) (s : State) :
    ∃ persisting db', (dropExpired sub [r.asEventRecord]).run s =
        (persisting, { s with db := db' }) ∧
      Removes (Deleted sub.dbNamespace s.members.expireTime [r]) s.db db' := by
  simp only [dropExpired, Prog.run_bind, run_readMembers, Record.asEventRecord]
  by_cases hle : readTime r.time ≤ s.members.expireTime
  · rw [if_pos hle]
    refine ⟨[], _, rfl, (removes_remove s.db _).congr fun key => ?_⟩
    exact ⟨fun hk => ⟨hle, hk⟩, fun hk => hk.2⟩
  · rw [if_neg hle]
    refine ⟨_, s.db, rfl, (Removes.refl s.db).congr fun key => ?_⟩
    exact ⟨False.elim, fun hk => hle hk.1⟩

/-- Deleting the rows of all records of a bin. -/
theorem run_deleteData (sub : Subscriber) (rs : List Record) (s : State) :
    ∃ persisting db', (deleteData sub true (rs.map Record.asEventRecord)).run s =
        (persisting, { s with db := db' }) ∧
      Removes (Deleted sub.dbNamespace s.members.expireTime rs) s.db db' := by
  match rs with
  | [] => exact ⟨[], s.db, rfl, Removes.refl s.db⟩
  | [r] => exact run_dropExpired_single sub r s
  | first :: second :: rest =>
      have hlast : (second.asEventRecord :: rest.map Record.asEventRecord).getLast
          (List.cons_ne_nil _ _) =
            ((second :: rest).getLast (List.cons_ne_nil _ _)).asEventRecord :=
        List.getLast_map (l := second :: rest) (by simp)
      refine ⟨[], _, rfl, ?_⟩
      have h := removes_removeRange s.db (dataKey sub.dbNamespace (toIndex first.eid))
        (dataKey sub.dbNamespace ((second.asEventRecord :: rest.map Record.asEventRecord).getLast
          (List.cons_ne_nil _ _)).1)
      refine h.congr fun key => ?_
      rw [hlast]
      rfl

/-- The stored record lists are those of a log. -/
def RecordsOf (ns : String) (db : Database) (log : EventLog) : Prop :=
  ∀ b, valueAt db (recordKey ns (toText b)) = join ((log.binRecords b).map Record.text) ","

/-- Expiring all records of a bin removes its rows and its record list. -/
theorem run_expireRecords {b : ℕ} (hall : allExecuted s.members = true)
    (h : RecordsOf sub.dbNamespace s.db log) :
    ∃ db', (expireRecords p sub "60" (toText b) true).run s = ((), { s with db := db' }) ∧
      Removes (fun key => Deleted sub.dbNamespace s.members.expireTime (log.binRecords b) key ∨
        key = recordKey sub.dbNamespace (toText b)) s.db db' := by
  have hpass : (log.binRecords b).filter (passes p s.members false) = log.binRecords b := by
    rw [List.filter_eq_self]
    intro r _
    simp [passes]
  have hrun := run_getRecords (p := p) h [b] false
  rw [List.flatMap_singleton, hpass, List.map_singleton] at hrun
  obtain ⟨persisting, db₁, hdel, hrem⟩ := run_deleteData sub (log.binRecords b) s
  have hkey : "60" ++ "." ++ toText b = "60." ++ toText b := by
    rw [show ("60" : String) ++ "." = "60." by decide]
  refine ⟨_, ?_, hrem.trans (removes_remove db₁ _)⟩
  simp only [expireRecords, Prog.run_bind, run_executedAllQueries, hall, Bool.not_true,
    Bool.false_eq_true, if_false, hkey, hrun, hdel, if_true, run_deleteEvents,
    recordKey_eq_append]
  rfl

/-- The record lists after one bin has gone. -/
theorem RecordsOf.remove {ns : String} {db db' : Database} {e : EventTime} {b : ℕ}
    (h : RecordsOf ns db log)
    (hrem : Removes (fun key => Deleted ns e (log.binRecords b) key ∨
      key = recordKey ns (toText b)) db db') :
    RecordsOf ns db' (log.keep fun b' => decide (b' ≠ b)) := by
  intro b'
  rw [EventLog.binRecords_keep]
  by_cases hb : b' = b
  · subst hb
    rw [hrem.valueAt_gone (Or.inr rfl)]
    simp
  · rw [hrem.valueAt_eq, h b', if_pos (by simpa using hb)]
    rintro (hdel | hkey)
    · exact recordKey_not_data ns _ hdel.isPrefix
    · exact hb (toText_inj.mp (recordKey_inj.mp hkey))

/-- Expiring a list of bins. -/
theorem run_expireBins {es : List ℕ} (hes : es.Nodup) (ps : List String)
    (hall : allExecuted s.members = true) (h : RecordsOf sub.dbNamespace s.db log) :
    ∃ db', (expireBins p sub "60" (es.map toText) ps).run s =
        (ps.filter (fun x => decide (x ∉ es.map toText)), { s with db := db' }) ∧
      Removes (fun key => ∃ b ∈ es,
        Deleted sub.dbNamespace s.members.expireTime (log.binRecords b) key ∨
          key = recordKey sub.dbNamespace (toText b)) s.db db' := by
  induction es generalizing s log ps with
  | nil =>
      refine ⟨s.db, ?_, (Removes.refl s.db).congr (by simp)⟩
      simp [expireBins]
  | cons b rest ih =>
      obtain ⟨hb, hrest⟩ := List.nodup_cons.mp hes
      obtain ⟨db₁, hrun, hrem⟩ := run_expireRecords (p := p) (b := b) hall h
      have h₁ : RecordsOf sub.dbNamespace db₁ (log.keep fun b' => decide (b' ≠ b)) :=
        h.remove hrem
      obtain ⟨db₂, hrun₂, hrem₂⟩ := ih (s := { s with db := db₁ }) hrest
        (ps.filter (· ≠ toText b)) hall h₁
      refine ⟨db₂, ?_, (hrem.trans hrem₂).congr fun key => ?_⟩
      · simp only [List.map_cons, expireBins, Prog.run_bind, hrun]
        rw [hrun₂, List.filter_filter]
        congr 1
        apply List.filter_congr
        intro x _
        simp [Bool.and_comm]
      · have hsame : ∀ b' ∈ rest,
            (log.keep fun b' => decide (b' ≠ b)).binRecords b' = log.binRecords b' := by
          intro b' hb'
          have hne : b' ≠ b := fun heq => hb (heq ▸ hb')
          rw [EventLog.binRecords_keep, if_pos (by simpa using hne)]
        simp only [List.mem_cons, exists_eq_or_imp]
        refine or_congr Iff.rfl ⟨?_, ?_⟩
        · rintro ⟨b', hb', hk⟩
          rw [hsame b' hb'] at hk
          exact ⟨b', hb', hk⟩
        · rintro ⟨b', hb', hk⟩
          rw [← hsame b' hb'] at hk
          exact ⟨b', hb', hk⟩

/-! ### Walking over the index -/

/-- The expire time is a whole minute. -/
def WholeMinute (m : Members) : Prop := m.expireTime.toNat % 60 = 0

/-- A bin that ends before the expire time. -/
def stale (m : Members) (b : ℕ) : Bool := decide ((UInt64.ofNat b + 1) * 60 ≤ m.expireTime)

/-- A bin that the next reading of the index removes. -/
def expires (m : Members) (b : ℕ) : Bool := allExecuted m && stale m b

theorem toNat_ofNat_bin {b : ℕ} (hb : b < 2 ^ 59) : (UInt64.ofNat b).toNat = b := by
  rw [UInt64.toNat_ofNat']
  exact Nat.mod_eq_of_lt (by omega)

/-- No bin straddles an expire time that is a whole minute. -/
theorem not_straddles {m : Members} {r : Record} (h60 : WholeMinute m)
    (hstale : stale m r.bin = false) : ¬UInt64.ofNat r.bin * 60 < m.expireTime := by
  have hbin : 60 * r.bin ≤ r.time.toNat := Nat.mul_div_le r.time.toNat 60
  have htime := r.time.toNat_lt
  have hb := toNat_ofNat_bin r.bin_lt
  have h1 : (1 : UInt64).toNat = 1 := rfl
  have h60' : (60 : UInt64).toNat = 60 := rfl
  rw [stale, decide_eq_false_iff_not, UInt64.le_iff_toNat_le, UInt64.toNat_mul, UInt64.toNat_add,
    hb, h1, h60', Nat.mod_eq_of_lt (show r.bin + 1 < 2 ^ 64 by omega)] at hstale
  rw [UInt64.lt_iff_toNat_lt, UInt64.toNat_mul, hb, h60',
    Nat.mod_eq_of_lt (show r.bin * 60 < 2 ^ 64 by omega)]
  rw [WholeMinute] at h60
  omega

/-- Visiting a bin says whether it is stale and changes nothing. -/
theorem run_visitBin (h60 : WholeMinute s.members) (sort : Bool) (r : Record) :
    (visitBin p sub sort (toText r.bin)).run s = (stale s.members r.bin, s) := by
  simp only [visitBin, timeFromRecord_bin r.bin_lt, Prog.run_bind, run_readMembers]
  cases hstale : stale s.members r.bin with
  | true =>
      rw [stale, decide_eq_true_eq] at hstale
      rw [if_pos hstale]
      rfl
  | false =>
      have hno := not_straddles h60 hstale
      rw [stale, decide_eq_false_iff_not] at hstale
      rw [if_neg hstale]
      simp [hno]

/-- The walk collects the bins of the range and the stale ones and changes nothing. -/
theorem run_visitBins (p : Process) (sub : Subscriber) (h60 : WholeMinute s.members)
    (l_start r_stop : EventTime) (sort : Bool) (bs : List ℕ) (hbs : ∀ b ∈ bs, ∃ r : Record, r.bin = b) :
    (visitBins p sub l_start r_stop sort (bs.map toText)).run s =
      ((((bs.filter fun b => inRange l_start r_stop (UInt64.ofNat b) && sort).map fun b =>
          "60." ++ toText b), (bs.filter (stale s.members)).map toText), s) := by
  induction bs with
  | nil => rfl
  | cons b rest ih =>
      obtain ⟨r, rfl⟩ := hbs b List.mem_cons_self
      have hrest := ih fun b hb => hbs b (List.mem_cons_of_mem _ hb)
      simp only [List.map_cons, visitBins, Prog.run_bind, run_visitBin h60, hrest, Prog.run_pure,
        timeFromRecord_bin r.bin_lt, List.filter_cons]
      split_ifs <;> rfl

/-! ### Reading the index -/

/-- The bins of a time range in binning order. -/
def rangeBins (start stop : EventTime) (bs : List ℕ) : List ℕ :=
  (bs.filter fun b => inRange (if start > 0 then start / 60 else 0)
    (if stop > 0 then stop / 60 + 1 else 0) (UInt64.ofNat b)).insertionSort (· ≤ ·)

/-- The log after the bins that expire have gone. -/
def EventLog.expire (log : EventLog) (m : Members) : EventLog := log.keep fun b => !expires m b

/-- The data keys that expiry removes. -/
def Lost (ns : String) (m : Members) (log : EventLog) (key : String) : Prop :=
  ∃ b ∈ log.bins, expires m b = true ∧ Deleted ns m.expireTime (log.binRecords b) key

/-- What reading the index does to the database. -/
structure Expired (ns : String) (m : Members) (log : EventLog) (db db' : Database) : Prop where
  represents : Represents ns db' (log.expire m)
  gone : ∀ key, Lost ns m log key → lookup db' kEvents key = none
  kept : ∀ d key, ¬(d = kEvents ∧ (key = indexKey ns ∨ (∃ b, key = recordKey ns (toText b)) ∨
    Lost ns m log key)) → lookup db' d key = lookup db d key

theorem EventLog.exists_record {b : ℕ} (hb : b ∈ log.bins) : ∃ r : Record, r.bin = b := by
  obtain ⟨r, _, hr⟩ := (mem_keys Record.bin).mp hb
  exact ⟨r, hr⟩

theorem EventLog.nodup_bins (log : EventLog) : log.bins.Nodup := nodup_keys Record.bin log.records

theorem EventLog.keep_eq_self {keepBin : ℕ → Bool} (h : ∀ b ∈ log.bins, keepBin b = true) :
    log.keep keepBin = log := by
  obtain ⟨records, increasing⟩ := log
  simp only [EventLog.keep, EventLog.mk.injEq, List.filter_eq_self]
  intro r hr
  exact h r.bin ((mem_keys Record.bin).mpr ⟨r, hr, rfl⟩)

theorem expired_refl {ns : String} {m : Members} {db : Database} (h : Represents ns db log)
    (hno : ∀ b ∈ log.bins, expires m b = false) : Expired ns m log db db := by
  have hlog : log.expire m = log := EventLog.keep_eq_self fun b hb => by simp [hno b hb]
  refine ⟨?_, ?_, fun _ _ _ => rfl⟩
  · rw [hlog]
    exact h
  rintro key ⟨b, hb, hexp, _⟩
  simp [hno b hb] at hexp

theorem indexKey_ne_recordKey (ns x : String) : recordKey ns x ≠ indexKey ns := by
  intro h
  have hl := congrArg String.toList h
  simp [recordKey, indexKey] at hl

theorem valueAt_setValue (db : Database) (key value key' : String) :
    valueAt (Ephemeral.setValue db kEvents key value) key' =
      if key = key' then value else valueAt db key' := by
  simp only [valueAt, lookup_setValue, true_and]
  split <;> rfl

theorem Lost.isPrefix_of {ns : String} {m : Members} {key pre : String}
    (hpre : ∀ eid, pre.toList <+: (dataKey ns eid).toList) (h : Lost ns m log key) :
    pre.toList <+: key.toList := by
  obtain ⟨b, _, _, hdel⟩ := h
  exact hdel.isPrefix_of hpre

theorem Lost.isPrefix {ns : String} {m : Members} {key : String} (h : Lost ns m log key) :
    "data.".toList <+: key.toList := h.isPrefix_of (dataKey_isPrefix ns)

/-- The database after the expired bins were removed and the index was rewritten. -/
theorem expired_of_removes {ns : String} {m : Members} {db db₁ : Database}
    (h : Represents ns db log)
    (hrem : Removes (fun key => Lost ns m log key ∨ ∃ b ∈ log.bins, expires m b = true ∧
      key = recordKey ns (toText b)) db db₁) :
    Expired ns m log db (Ephemeral.setValue db₁ kEvents (indexKey ns)
      (join ((log.expire m).bins.map toText) ",")) := by
  refine ⟨⟨?_, ?_⟩, ?_, ?_⟩
  · rw [valueAt_setValue, if_pos rfl]
  · intro b
    rw [valueAt_setValue, if_neg (indexKey_ne_recordKey ns _).symm, EventLog.expire,
      EventLog.binRecords_keep]
    by_cases hb : b ∈ log.bins ∧ expires m b = true
    · rw [hrem.valueAt_gone (Or.inr ⟨b, hb.1, hb.2, rfl⟩), hb.2]
      simp
    · rw [hrem.valueAt_eq, h.records b]
      · by_cases hexp : expires m b = true
        · have hnil := EventLog.binRecords_eq_nil fun hmem => hb ⟨hmem, hexp⟩
          simp [hnil]
        · simp [hexp]
      · rintro (hlost | ⟨b', hb', hexp, hkey⟩)
        · exact recordKey_not_data ns _ hlost.isPrefix
        · rw [recordKey_inj, toText_inj] at hkey
          exact hb (hkey ▸ ⟨hb', hexp⟩)
  · intro key hlost
    have hne : indexKey ns ≠ key := by
      rintro rfl
      exact indexKey_not_data ns hlost.isPrefix
    rw [lookup_setValue, if_neg fun hk => hne hk.2]
    exact hrem.gone key (Or.inl hlost)
  · intro d key hkey
    rw [lookup_setValue, if_neg, hrem.kept]
    · rintro ⟨rfl, hlost | ⟨b, _, _, hk⟩⟩
      · exact hkey ⟨rfl, Or.inr (Or.inr hlost)⟩
      · exact hkey ⟨rfl, Or.inr (Or.inl ⟨_, hk⟩)⟩
    · rintro ⟨rfl, rfl⟩
      exact hkey ⟨rfl, Or.inl rfl⟩

/-- Removing the stale bins and rewriting the index. -/
theorem run_expireIndexes (p : Process) (h : Represents sub.dbNamespace s.db log) :
    ∃ db', (expireIndexes p sub "60" (log.bins.map toText)
        ((log.bins.filter (stale s.members)).map toText)).run s = ((), { s with db := db' }) ∧
      Expired sub.dbNamespace s.members log s.db db' := by
  cases hall : allExecuted s.members with
  | false =>
      refine ⟨s.db, ?_, expired_refl h fun b _ => by simp [expires, hall]⟩
      simp [expireIndexes, hall]
  | true =>
      have hexp : ∀ b, expires s.members b = stale s.members b := fun b => by simp [expires, hall]
      obtain ⟨db₁, hrun, hrem⟩ := run_expireBins (p := p)
        (log.nodup_bins.filter (stale s.members)) (log.bins.map toText) hall h.records
      have hps : (log.bins.map toText).filter (fun x => decide
          (x ∉ (log.bins.filter (stale s.members)).map toText)) =
            (log.expire s.members).bins.map toText := by
        rw [EventLog.expire, EventLog.bins_keep, List.filter_map]
        congr 1
        apply List.filter_congr
        intro b hb
        have hinj : Function.Injective toText := fun _ _ => toText_inj.mp
        simp only [Function.comp_apply, List.mem_map_of_injective hinj, List.mem_filter, hb,
          true_and, hexp]
        cases stale s.members b <;> rfl
      refine ⟨_, ?_, expired_of_removes h (hrem.congr fun key => ?_)⟩
      · simp only [expireIndexes, Prog.run_bind, run_executedAllQueries, hall, Bool.not_true,
          Bool.false_eq_true, if_false, hrun, hps, indexKey_eq_append, run_setEvents]
        rfl
      · simp only [Lost, hexp, List.mem_filter]
        constructor
        · rintro ⟨b, ⟨hb, hs⟩, hk | hk⟩
          · exact Or.inl ⟨b, hb, hs, hk⟩
          · exact Or.inr ⟨b, hb, hs, hk⟩
        · rintro (⟨b, hb, hs, hk⟩ | ⟨b, hb, hs, hk⟩)
          · exact ⟨b, ⟨hb, hs⟩, Or.inl hk⟩
          · exact ⟨b, ⟨hb, hs⟩, Or.inr hk⟩

theorem sortIndexes_bins {bs : List ℕ} (hbs : ∀ b ∈ bs, b < 2 ^ 59) :
    sortIndexes (bs.map fun b => "60." ++ toText b) =
      (bs.insertionSort (· ≤ ·)).map fun b => "60." ++ toText b := by
  refine (List.map_insertionSort _ _ _ bs ?_).symm
  intro a ha b hb
  rw [afterFirst_index, afterFirst_index, timeFromRecord_bin (hbs a ha),
    timeFromRecord_bin (hbs b hb), UInt64.le_iff_toNat_le, toNat_ofNat_bin (hbs a ha),
    toNat_ofNat_bin (hbs b hb)]

/-- Reading the index returns the bins of the range and expires the stale ones. -/
theorem run_getIndexes (p : Process) (h : Represents sub.dbNamespace s.db log)
    (h60 : WholeMinute s.members) (start stop : EventTime) (sort : Bool) :
    ∃ db', (getIndexes p sub start stop sort).run s =
        (if sort then (rangeBins start stop log.bins).map (fun b => "60." ++ toText b) else [],
          { s with db := db' }) ∧
      Expired sub.dbNamespace s.members log s.db db' := by
  have hcontent : (readValue kEvents ("indexes." ++ sub.dbNamespace ++ ".60") :
      Prog Access String).run s = (join (log.bins.map toText) ",", s) := by
    rw [run_readEvents]
    exact congrArg (·, s) h.index
  by_cases hnil : log.bins = []
  · refine ⟨s.db, ?_, expired_refl h fun b hb => ?_⟩
    · simp only [getIndexes, Prog.run_bind, hcontent, hnil, List.map_nil, join_nil, if_true,
        Prog.run_pure]
      simp [rangeBins]
    · rw [hnil] at hb
      exact absurd hb List.not_mem_nil
  · have hne : join (log.bins.map toText) "," ≠ "" := join_bins_eq_empty.not.mpr hnil
    obtain ⟨db', hrun, hexp⟩ := run_expireIndexes p h
    have hvisit := run_visitBins p sub h60 (if start > 0 then start / 60 else 0)
      (if stop > 0 then stop / 60 + 1 else 0) sort log.bins fun b hb => EventLog.exists_record hb
    have hout : (if sort = true then sortIndexes ((log.bins.filter fun b =>
          inRange (if start > 0 then start / 60 else 0) (if stop > 0 then stop / 60 + 1 else 0)
            (UInt64.ofNat b) && sort).map fun b => "60." ++ toText b)
        else (log.bins.filter fun b =>
          inRange (if start > 0 then start / 60 else 0) (if stop > 0 then stop / 60 + 1 else 0)
            (UInt64.ofNat b) && sort).map fun b => "60." ++ toText b) =
        if sort then (rangeBins start stop log.bins).map (fun b => "60." ++ toText b) else [] := by
      cases sort with
      | false => simp
      | true =>
          rw [if_pos rfl, if_pos rfl, sortIndexes_bins]
          · simp only [Bool.and_true, rangeBins]
          · intro b hb
            exact EventLog.bin_lt (List.mem_filter.mp hb).1
    simp only [getIndexes, Prog.run_bind, hcontent, if_neg hne, splitAnyOf_bins hnil, hvisit,
      hout]
    by_cases hstale : (log.bins.filter (stale s.members)).map toText = []
    · refine ⟨s.db, ?_, expired_refl h fun b hb => ?_⟩
      · rw [if_neg (not_not.mpr hstale)]
        rfl
      · rw [List.map_eq_nil_iff, List.filter_eq_nil_iff] at hstale
        simp [expires, hstale b hb]
    · refine ⟨db', ?_, hexp⟩
      rw [if_pos hstale, Prog.run_bind, hrun]
      rfl

end Osquery.EventSubscribers
