import Osquery.EventSubscribers.Expiry

/-!
# Recording events

A batch draws fresh ids, may check the buffer for overflow, stores its rows and
appends its records to the bin of the event time. The record list of a bin is
empty exactly when the bin is not in the index, so appending to the index once
keeps the index free of repetitions.
-/

namespace Osquery.EventSubscribers

open Foundation.AtomicProgram Foundation.JsonText Foundation.Numeral Foundation.Separated
open Foundation.Grouping Core.BackingStore Core.Conversions Core.Rows

variable {p : Process} {sub : Subscriber} {s : State} {log : EventLog}

/-- Two databases agree on every value outside a set of keys of the events domain. -/
def AgreesExcept (P : String → Prop) (db db' : Database) : Prop :=
  ∀ d key, ¬(d = kEvents ∧ P key) → lookup db' d key = lookup db d key

theorem AgreesExcept.refl (P : String → Prop) (db : Database) : AgreesExcept P db db :=
  fun _ _ _ => rfl

theorem AgreesExcept.trans {P : String → Prop} {db db' db'' : Database}
    (h : AgreesExcept P db db') (h' : AgreesExcept P db' db'') : AgreesExcept P db db'' :=
  fun d key hkey => (h' d key hkey).trans (h d key hkey)

theorem AgreesExcept.mono {P Q : String → Prop} {db db' : Database} (h : AgreesExcept P db db')
    (hPQ : ∀ key, P key → Q key) : AgreesExcept Q db db' :=
  fun d key hkey => h d key fun hk => hkey ⟨hk.1, hPQ key hk.2⟩

theorem AgreesExcept.valueAt_eq {P : String → Prop} {db db' : Database}
    (h : AgreesExcept P db db') {key : String} (hkey : ¬P key) :
    valueAt db' key = valueAt db key := by
  rw [valueAt, valueAt, h kEvents key fun hk => hkey hk.2]

/-- A log is represented as before when its values read as before. -/
theorem Represents.of_valueAt {ns : String} {db db' : Database} (h : Represents ns db log)
    (hindex : valueAt db' (indexKey ns) = valueAt db (indexKey ns))
    (hrecord : ∀ b, valueAt db' (recordKey ns (toText b)) = valueAt db (recordKey ns (toText b))) :
    Represents ns db' log := by
  refine ⟨?_, ?_⟩
  · rw [hindex]
    exact h.index
  · intro b
    rw [hrecord]
    exact h.records b

/-- A log is represented as before when its keys did not change. -/
theorem Represents.congr {ns : String} {P : String → Prop} {db db' : Database}
    (h : Represents ns db log) (hagree : AgreesExcept P db db') (hindex : ¬P (indexKey ns))
    (hrecord : ∀ b, ¬P (recordKey ns (toText b))) : Represents ns db' log :=
  h.of_valueAt (hagree.valueAt_eq hindex) fun b => hagree.valueAt_eq (hrecord b)

/-! ### Event ids -/

def eidKey (ns : String) : String := "eid." ++ ns

theorem agreesExcept_setValue (db : Database) (key value : String) :
    AgreesExcept (· = key) db (Ephemeral.setValue db kEvents key value) := by
  intro d k hk
  rw [lookup_setValue, if_neg]
  rintro ⟨rfl, rfl⟩
  exact hk ⟨rfl, rfl⟩

theorem run_restoreEid (sub : Subscriber) (s : State) :
    (restoreEid sub).run s = (.error .badLexicalCast, s) ∨
      ∃ n, (restoreEid sub).run s = (.ok (), ⟨s.db, { s.members with lastEid := n }⟩) ∧
        s.members.lastEid ≤ n := by
  simp only [restoreEid, Prog.run_bind, run_readMembers]
  by_cases h : s.members.lastEid ≠ 0
  · rw [if_pos h]
    exact Or.inr ⟨s.members.lastEid, rfl, le_rfl⟩
  · rw [if_neg h, Prog.run_bind, run_readEvents]
    cases lexicalCast (if valueAt s.db ("eid." ++ sub.dbNamespace) = "" then "0"
        else valueAt s.db ("eid." ++ sub.dbNamespace)) with
    | none => exact Or.inl rfl
    | some n => exact Or.inr ⟨n.toNat, rfl, by omega⟩

/-- Drawing an id either fails on a corrupt stored value and changes nothing, or
returns an id above all earlier ones. -/
theorem run_getEventID (sub : Subscriber) (s : State) :
    (getEventID sub).run s = (.error .badLexicalCast, s) ∨
      ∃ n db', (getEventID sub).run s =
          (.ok (toIndex n), ⟨db', { s.members with lastEid := n }⟩) ∧
        s.members.lastEid < n ∧ AgreesExcept (· = eidKey sub.dbNamespace) s.db db' := by
  rcases run_restoreEid sub s with h | ⟨n, h, hle⟩
  · left
    rw [getEventID, Prog.run_bind, h]
    rfl
  · right
    simp only [getEventID, Prog.run_bind, h, run_readMembers]
    by_cases hten : n % 10 = 0
    · refine ⟨n + 1, _, ?_, by omega,
        agreesExcept_setValue s.db (eidKey sub.dbNamespace) (toIndex (n + 10))⟩
      rw [if_pos hten]
      rfl
    · refine ⟨n + 1, s.db, ?_, by omega, AgreesExcept.refl _ _⟩
      rw [if_neg hten]
      rfl

/-- The row as it is stored: with its time and its id, as text. -/
def storedText (p : Process) (time : EventTime) (row : Row) (eid : ℕ) : String :=
  dropNewline (serializeRowJSON p.json
    ((row.insert "time" (toText time.toNat)).insert "eid" (toIndex eid)))

/-- Rows with the ids that were drawn for them. -/
abbrev Batch := List (Row × ℕ)

/-- The ids drawn for the rows of a batch. -/
structure Drawn (rows : List Row) (batch : Batch) (s s₁ : State) : Prop where
  rows_eq : batch.map Prod.fst = rows
  increasing : (batch.map Prod.snd).Pairwise (· < ·)
  bounds : ∀ e ∈ batch.map Prod.snd, s.members.lastEid < e ∧ e ≤ s₁.members.lastEid

/-- Drawing ids stores nothing but the counter. -/
structure Counted (ns : String) (s s₁ : State) : Prop where
  members : s₁.members = { s.members with lastEid := s₁.members.lastEid }
  mono : s.members.lastEid ≤ s₁.members.lastEid
  agrees : AgreesExcept (· = eidKey ns) s.db s₁.db

/-- Preparing rows draws increasing ids. -/
theorem run_prepareRows (p : Process) (sub : Subscriber) (time : EventTime) (rows : List Row)
    (s : State) :
    ∃ result s₁, (prepareRows p sub time rows).run s = (result, s₁) ∧
      Counted sub.dbNamespace s s₁ ∧
      ∀ prepared, result = .ok prepared → ∃ batch, Drawn rows batch s s₁ ∧
        prepared = batch.map fun d => (toIndex d.2, storedText p time d.1 d.2) := by
  induction rows generalizing s with
  | nil =>
      refine ⟨.ok [], s, rfl, ⟨rfl, le_rfl, AgreesExcept.refl _ _⟩, ?_⟩
      rintro prepared h
      obtain rfl := Except.ok.inj h
      exact ⟨[], ⟨rfl, List.Pairwise.nil, by simp⟩, rfl⟩
  | cons row rest ih =>
      rw [prepareRows, Prog.run_bind]
      rcases run_getEventID sub s with h | ⟨n, db₁, h, hlt, hagree⟩
      · rw [h]
        exact ⟨.error .badLexicalCast, s, rfl, ⟨rfl, le_rfl, AgreesExcept.refl _ _⟩, by simp⟩
      · obtain ⟨result, s₂, hrun, hcount, hok⟩ := ih ⟨db₁, { s.members with lastEid := n }⟩
        have hcount' : Counted sub.dbNamespace s s₂ :=
          ⟨hcount.members, hlt.le.trans hcount.mono, hagree.trans hcount.agrees⟩
        rw [h]
        simp only [Prog.run_bind, hrun]
        cases result with
        | error e => exact ⟨.error e, s₂, rfl, hcount', by simp⟩
        | ok prepared =>
            refine ⟨_, s₂, rfl, hcount', ?_⟩
            rintro out hout
            obtain rfl := Except.ok.inj hout
            obtain ⟨batch, hdrawn, rfl⟩ := hok prepared rfl
            refine ⟨(row, n) :: batch, ⟨?_, ?_, ?_⟩, rfl⟩
            · rw [List.map_cons, hdrawn.rows_eq]
            · exact List.pairwise_cons.mpr ⟨fun e he => (hdrawn.bounds e he).1, hdrawn.increasing⟩
            · intro e he
              rcases List.mem_cons.mp he with rfl | he
              · exact ⟨hlt, hcount.mono⟩
              · exact ⟨hlt.trans (hdrawn.bounds e he).1, (hdrawn.bounds e he).2⟩

/-! ### Records -/

/-- The records of ids at one time. -/
def recordsAt (time : EventTime) (eids : List ℕ) : List Record := eids.map fun e => ⟨e, time⟩

theorem join_concat_text {rs : List Record} (hne : rs ≠ []) (e : ℕ) (time : EventTime) :
    join (rs.map Record.text) "," ++ "," ++ toIndex e ++ ":" ++ toText time.toNat =
      join ((rs ++ [(⟨e, time⟩ : Record)]).map Record.text) "," := by
  rw [List.map_append, List.map_singleton, join_concat (by simpa using hne), Record.text]
  simp only [String.append_assoc]

/-- Appending ids to a record list; a list that was empty also gives the new index. -/
theorem run_appendRecords (index_key list_id : String) (time : EventTime) (rs : List Record)
    (eids : List ℕ) (data : List (String × String)) (s : State) :
    (appendRecords index_key list_id (toText time.toNat) (eids.map toIndex)
        (join (rs.map Record.text) ",") data).run s =
      ((join ((rs ++ recordsAt time eids).map Record.text) ",",
        if rs = [] ∧ eids ≠ [] then
          data ++ [(index_key, if valueAt s.db index_key = "" then list_id
            else valueAt s.db index_key ++ "," ++ list_id)]
        else data), s) := by
  induction eids generalizing rs data with
  | nil => simp [appendRecords, recordsAt]
  | cons e rest ih =>
      have happend : rs ++ [⟨e, time⟩] ++ recordsAt time rest = rs ++ recordsAt time (e :: rest) := by
        simp [recordsAt]
      rw [List.map_cons, appendRecords]
      by_cases hrs : rs = []
      · subst hrs
        have hnext := ih [⟨e, time⟩] (data ++ [(index_key, if valueAt s.db index_key = "" then list_id
          else valueAt s.db index_key ++ "," ++ list_id)])
        have htext : toIndex e ++ ":" ++ toText time.toNat =
            join ([(⟨e, time⟩ : Record)].map Record.text) "," := by
          simp [join, Record.text]
        rw [List.map_nil, join_nil, if_pos rfl, Prog.run_bind, run_readEvents]
        simp only [htext]
        rw [hnext]
        simp [recordsAt]
      · rw [if_neg (join_records_eq_empty.not.mpr hrs), join_concat_text hrs, ih, happend]
        simp [hrs]

theorem agreesExcept_putBatch (P : String → Prop) (db : Database) (data : List (String × String))
    (h : ∀ d ∈ data, P d.1) : AgreesExcept P db (Ephemeral.putBatch db kEvents data) := by
  intro d key hkey
  apply lookup_putBatch_of_forall_ne
  rintro rfl q hq rfl
  exact hkey ⟨rfl, h q hq⟩

/-- Fresh ids at one time can be appended to a log. -/
def EventLog.record (log : EventLog) (time : EventTime) (eids : List ℕ)
    (hpair : eids.Pairwise (· < ·)) (hfresh : ∀ a ∈ log.records, ∀ e ∈ eids, a.eid < e) : EventLog :=
  log.append (recordsAt time eids) (List.pairwise_map.mpr hpair) (by
    intro a ha b hb
    obtain ⟨e, he, rfl⟩ := List.mem_map.mp hb
    exact hfresh a ha e he)

theorem recordsAt_bin {time : EventTime} {eids : List ℕ} :
    ∀ r ∈ recordsAt time eids, r.bin = time.toNat / 60 := by
  intro r hr
  obtain ⟨e, _, rfl⟩ := List.mem_map.mp hr
  rfl

theorem EventLog.record_bins {time : EventTime} {eids : List ℕ} (hne : eids ≠ [])
    (hpair : eids.Pairwise (· < ·)) (hfresh : ∀ a ∈ log.records, ∀ e ∈ eids, a.eid < e) :
    (log.record time eids hpair hfresh).bins =
      if time.toNat / 60 ∈ log.bins then log.bins else log.bins ++ [time.toNat / 60] :=
  keys_append_same Record.bin recordsAt_bin (by simpa [recordsAt] using hne)

theorem EventLog.record_binRecords {time : EventTime} {eids : List ℕ}
    (hpair : eids.Pairwise (· < ·)) (hfresh : ∀ a ∈ log.records, ∀ e ∈ eids, a.eid < e) (b : ℕ) :
    (log.record time eids hpair hfresh).binRecords b =
      if b = time.toNat / 60 then log.binRecords b ++ recordsAt time eids else log.binRecords b := by
  refine (group_append Record.bin log.records (recordsAt time eids) b).trans ?_
  split
  · rename_i hb
    subst hb
    rw [group_eq_self Record.bin recordsAt_bin]
    rfl
  · rename_i hb
    rw [group_eq_nil Record.bin recordsAt_bin (Ne.symm hb), List.append_nil]
    rfl

/-- The index with a bin appended. -/
theorem append_index {bs : List ℕ} (b : ℕ) :
    (if join (bs.map toText) "," = "" then toText b
      else join (bs.map toText) "," ++ "," ++ toText b) = join ((bs ++ [b]).map toText) "," := by
  by_cases hbs : bs = []
  · subst hbs
    simp [join]
  · rw [if_neg (join_bins_eq_empty.not.mpr hbs), List.map_append, List.map_singleton,
      join_concat (by simpa using hbs)]

/-- What recording writes: the record list of the bin, and the index when the
bin is new. -/
def recordData (ns : String) (log : EventLog) (time : EventTime) (eids : List ℕ) :
    List (String × String) :=
  (if time.toNat / 60 ∈ log.bins then []
    else [(indexKey ns, join ((log.bins ++ [time.toNat / 60]).map toText) ",")]) ++
  [(recordKey ns (toText (time.toNat / 60)),
    join ((log.binRecords (time.toNat / 60) ++ recordsAt time eids).map Record.text) ",")]

theorem represents_recordData {ns : String} {db : Database} (time : EventTime) {eids : List ℕ}
    (hne : eids ≠ []) (hpair : eids.Pairwise (· < ·))
    (hfresh : ∀ a ∈ log.records, ∀ e ∈ eids, a.eid < e) (h : Represents ns db log) :
    Represents ns (Ephemeral.putBatch db kEvents (recordData ns log time eids))
      (log.record time eids hpair hfresh) := by
  have hkey := indexKey_ne_recordKey ns
  refine ⟨?_, ?_⟩
  · rw [EventLog.record_bins hne, recordData]
    by_cases hb : time.toNat / 60 ∈ log.bins
    · simp only [if_pos hb, List.nil_append, putBatch_cons, putBatch_nil, valueAt_setValue,
        if_neg (hkey _)]
      exact h.index
    · simp only [if_neg hb, List.cons_append, List.nil_append, putBatch_cons, putBatch_nil,
        valueAt_setValue, if_neg (hkey _), if_true]
  · intro b
    rw [EventLog.record_binRecords, recordData]
    by_cases hbt : b = time.toNat / 60
    · subst hbt
      split <;> simp [valueAt_setValue]
    · have hne' : recordKey ns (toText (time.toNat / 60)) ≠ recordKey ns (toText b) := by
        rw [ne_eq, recordKey_inj, toText_inj]
        exact Ne.symm hbt
      rw [if_neg hbt, ← h.records b]
      split <;> simp [valueAt_setValue, hne', (hkey _).symm]

/-- Recording appends the records to the log. -/
theorem run_recordEvents (sub : Subscriber) (time : EventTime) {eids : List ℕ} (hne : eids ≠ [])
    (h : Represents sub.dbNamespace s.db log) :
    (recordEvents sub (eids.map toIndex) time).run s =
      (.ok (), ⟨Ephemeral.putBatch s.db kEvents (recordData sub.dbNamespace log time eids),
        s.members⟩) := by
  have hdiv : (time / 60).toNat = time.toNat / 60 := UInt64.toNat_div time 60
  have hread : valueAt s.db ("records." ++ sub.dbNamespace ++ ".60." ++ toText (time.toNat / 60)) =
      join ((log.binRecords (time.toNat / 60)).map Record.text) "," := h.records _
  have hindex : valueAt s.db ("indexes." ++ sub.dbNamespace ++ ".60") =
      join (log.bins.map toText) "," := h.index
  simp only [recordEvents, hdiv, Prog.run_bind, run_readEvents, hread, run_appendRecords, hindex,
    append_index, List.nil_append, run_batchEvents]
  have hnil : log.binRecords (time.toNat / 60) = [] ↔ time.toNat / 60 ∉ log.bins := by
    rw [← not_iff_not, not_not]
    exact group_ne_nil_iff Record.bin
  have hdata : (if log.binRecords (time.toNat / 60) = [] ∧ eids ≠ [] then
      [("indexes." ++ sub.dbNamespace ++ ".60",
        join ((log.bins ++ [time.toNat / 60]).map toText) ",")] else []) =
      if time.toNat / 60 ∈ log.bins then []
      else [(indexKey sub.dbNamespace, join ((log.bins ++ [time.toNat / 60]).map toText) ",")] := by
    by_cases hb : time.toNat / 60 ∈ log.bins
    · rw [if_pos hb, if_neg fun hk => hnil.mp hk.1 hb]
    · rw [if_neg hb, if_pos ⟨hnil.mpr hb, hne⟩]
      rfl
  rw [hdata]
  rfl

/-! ### Overflow -/

theorem wholeMinute_sub (t : EventTime) : (t - t % 60).toNat % 60 = 0 := by
  have h60 : (60 : UInt64).toNat = 60 := rfl
  have hle : t % 60 ≤ t := by
    rw [UInt64.le_iff_toNat_le, UInt64.toNat_mod, h60]
    exact Nat.mod_le _ _
  rw [UInt64.toNat_sub_of_le _ _ hle, UInt64.toNat_mod, h60]
  omega

/-- The keys of an overflow are among the keys that were visited. -/
def Overflow.Within (o : Overflow) (keys : List String) : Prop :=
  (o.minKey = "" ∨ o.minKey ∈ keys) ∧ (o.maxKey = "" ∨ o.maxKey ∈ keys)

private theorem ite_within {c : Prop} [Decidable c] {key old : String} {keys : List String}
    (hkey : key ∈ keys) (hold : old = "" ∨ old ∈ keys) :
    (if c then key else old) = "" ∨ (if c then key else old) ∈ keys := by
  split
  · exact Or.inr hkey
  · exact hold

theorem Overflow.within_extend {o : Overflow} {keys : List String} (h : o.Within keys)
    {key : String} (hkey : key ∈ keys) (value : UInt64) : (o.extend key value).Within keys := by
  unfold Overflow.extend Overflow.Within
  exact ⟨ite_within hkey h.1, ite_within hkey h.2⟩

theorem Overflow.within_visit {o : Overflow} {keys : List String} (h : o.Within keys)
    {key : String} (hkey : key ∈ keys) (threshold : UInt64) :
    (o.visit threshold key).Within keys := by
  rw [Overflow.visit]
  by_cases hvalue : tryToUnsigned (afterLast key '.') 0 < threshold
  · rw [if_pos hvalue]
    exact Overflow.within_extend h hkey _
  · rw [if_neg hvalue]
    exact h

theorem Overflow.within_foldl {keys : List String} (threshold : UInt64) (visited : List String)
    {o : Overflow} (h : o.Within keys) (hvisited : ∀ key ∈ visited, key ∈ keys) :
    (visited.foldl (Overflow.visit threshold) o).Within keys := by
  induction visited generalizing o with
  | nil => exact h
  | cons key rest ih =>
      exact ih (Overflow.within_visit h (hvisited key List.mem_cons_self) threshold)
        fun k hk => hvisited k (List.mem_cons_of_mem _ hk)

/-- A key of stored rows, of this or another subscriber. -/
def IsData (key : String) : Prop := "data.".toList <+: key.toList

/-- Deleting an overflow removes keys with the common beginning of the visited ones. -/
theorem run_deleteOverflow {o : Overflow} {keys : List String} {pre : String}
    (h : o.Within keys) (hkeys : ∀ key ∈ keys, pre.toList <+: key.toList) (s : State) :
    ∃ db', (deleteOverflow o).run s = ((), { s with db := db' }) ∧
      AgreesExcept (fun key => pre.toList <+: key.toList) s.db db' := by
  rw [deleteOverflow]
  by_cases hmin : o.minKey ≠ ""
  · have hdata : pre.toList <+: o.minKey.toList := hkeys _ (h.1.resolve_left hmin)
    rw [if_pos hmin]
    by_cases heq : o.maxValue = o.minValue
    · rw [if_pos heq]
      refine ⟨_, rfl, fun d key hkey => (removes_remove s.db o.minKey).kept d key ?_⟩
      rintro ⟨hd, rfl⟩
      exact hkey ⟨hd, hdata⟩
    · rw [if_neg heq]
      refine ⟨_, rfl, fun d key hkey => (removes_removeRange s.db o.minKey o.maxKey).kept d key ?_⟩
      rintro ⟨hd, hlow, hhigh⟩
      rcases h.2 with hmax | hmax
      · rw [hmax] at hhigh
        rw [eq_empty_of_le hhigh] at hlow
        exact hmin (eq_empty_of_le hlow)
      · exact hkey ⟨hd, isPrefix_of_between hdata (hkeys _ hmax) hlow hhigh⟩
  · rw [if_neg hmin]
    exact ⟨s.db, rfl, AgreesExcept.refl _ _⟩

/-- The keys of the index and the records of a subscriber. -/
def IsIndex (ns key : String) : Prop := key = indexKey ns ∨ ∃ b, key = recordKey ns (toText b)

/-- A key that the scan for the rows of a subscriber finds. -/
def IsBuffered (ns key : String) : Prop := ("data." ++ ns).toList <+: key.toList

theorem IsBuffered.isData {ns key : String} (h : IsBuffered ns key) : IsData key := by
  rw [IsBuffered, String.toList_append] at h
  exact (List.prefix_append _ _).trans h

theorem dataKey_isBuffered (ns eid : String) : IsBuffered ns (dataKey ns eid) := by
  simp [IsBuffered, dataKey]

theorem Expired.agreesExcept_buffered {ns : String} {m : Members} {db db' : Database}
    (h : Expired ns m log db db') :
    AgreesExcept (fun key => IsIndex ns key ∨ IsBuffered ns key) db db' := by
  intro d key hkey
  apply h.kept
  rintro ⟨hd, hk | hk | hk⟩
  · exact hkey ⟨hd, Or.inl (Or.inl hk)⟩
  · exact hkey ⟨hd, Or.inl (Or.inr hk)⟩
  · exact hkey ⟨hd, Or.inr (hk.isPrefix_of (dataKey_isBuffered ns))⟩

theorem Expired.agreesExcept {ns : String} {m : Members} {db db' : Database}
    (h : Expired ns m log db db') : AgreesExcept (fun key => IsIndex ns key ∨ IsData key) db db' :=
  h.agreesExcept_buffered.mono fun _ hk => hk.imp id IsBuffered.isData

theorem isBuffered_of_mem_scan {db : Database} {ns key : String}
    (h : key ∈ Ephemeral.scan db kEvents ("data." ++ ns) 0) : IsBuffered ns key :=
  (mem_scan_zero.mp h).2

theorem isData_of_mem_scan {db : Database} {ns key : String}
    (h : key ∈ Ephemeral.scan db kEvents ("data." ++ ns) 0) : IsData key :=
  (isBuffered_of_mem_scan h).isData

/-- The keys that the overflow check counts. -/
def bufferedKeys (sub : Subscriber) (db : Database) : List String :=
  Ephemeral.scan db kEvents ("data." ++ sub.dbNamespace) 0

theorem run_expireCheck_eq (p : Process) (sub : Subscriber) (s : State) :
    (expireCheck p sub).run s =
      if (bufferedKeys sub s.db).length ≤ sub.eventsMax.toNat then (.ok (), s)
      else (evictOverflow p sub (bufferedKeys sub s.db)).run s := by
  have hscan : (scanDatabaseKeys kEvents ("data." ++ sub.dbNamespace) 0 : Prog Access _).run s =
      (.ok (bufferedKeys sub s.db), s) := rfl
  rw [expireCheck, Prog.run_bind, hscan]
  exact Prog.run_ite _ _ _ _

theorem indexKey_not_isData (ns : String) : ¬IsData (indexKey ns) := indexKey_not_data ns

theorem recordKey_not_isData (ns x : String) : ¬IsData (recordKey ns x) := recordKey_not_data ns x

/-- What a check for overflow leaves: fewer rows, a log without some of its
bins, and an expire time that is a whole minute. -/
def Checked (ns : String) (log : EventLog) (s s' : State) : Prop :=
  ∃ e keepBin, s'.members = s.members.expireAt e ∧ e.toNat % 60 = 0 ∧
    Represents ns s'.db (log.keep keepBin) ∧
    AgreesExcept (fun key => IsIndex ns key ∨ IsData key) s.db s'.db

/-- The same, with the keys that the check can reach. -/
def Evicted (ns : String) (log : EventLog) (s s' : State) : Prop :=
  ∃ e keepBin, s'.members = s.members.expireAt e ∧ e.toNat % 60 = 0 ∧
    Represents ns s'.db (log.keep keepBin) ∧
    AgreesExcept (fun key => IsIndex ns key ∨ IsBuffered ns key) s.db s'.db

theorem Evicted.checked {ns : String} {s' : State} (h : Evicted ns log s s') :
    Checked ns log s s' := by
  obtain ⟨e, keepBin, hm, he, hrep, hagree⟩ := h
  exact ⟨e, keepBin, hm, he, hrep, hagree.mono fun _ hk => hk.imp id IsBuffered.isData⟩

theorem evicted_refl {ns : String} (h : Represents ns s.db log) (h60 : WholeMinute s.members) :
    Evicted ns log s s := by
  refine ⟨s.members.expireTime, fun _ => true, rfl, h60, ?_, AgreesExcept.refl _ _⟩
  rw [EventLog.keep_eq_self fun _ _ => rfl]
  exact h

theorem checked_refl {ns : String} (h : Represents ns s.db log) (h60 : WholeMinute s.members) :
    Checked ns log s s := (evicted_refl h h60).checked

theorem evicted_expireBefore (p : Process) (h : Represents sub.dbNamespace s.db log)
    (h60 : WholeMinute s.members) (content : String) :
    Evicted sub.dbNamespace log s ((expireBefore p sub content).run s).2 := by
  unfold expireBefore
  cases storedTime p content with
  | none => exact evicted_refl h h60
  | some time =>
      dsimp only
      cases lexicalCast time with
      | none => exact evicted_refl h h60
      | some last_time =>
          obtain ⟨e, he, he60⟩ : ∃ e, (if last_time > 0 then
              s.members.expireAt (last_time - last_time % 60) else s.members) =
                s.members.expireAt e ∧ e.toNat % 60 = 0 := by
            split
            · exact ⟨_, rfl, wholeMinute_sub last_time⟩
            · exact ⟨_, rfl, h60⟩
          obtain ⟨db', hrun, hexp⟩ := run_getIndexes (s := ⟨s.db, s.members.expireAt e⟩)
            p h he60 e 0 false
          simp only [Prog.run_bind, run_updateMembers, run_readMembers, he]
          refine ⟨e, fun b => !expires (s.members.expireAt e) b, ?_, he60, ?_, ?_⟩
          · exact congrArg (fun r => r.2.members) hrun
          · exact congrArg (fun r => r.2.db) hrun ▸ hexp.represents
          · exact congrArg (fun r => r.2.db) hrun ▸ hexp.agreesExcept_buffered

/-- Whatever its outcome, the check leaves a represented log. -/
theorem evicted_expireCheck (p : Process) (h : Represents sub.dbNamespace s.db log)
    (h60 : WholeMinute s.members) :
    Evicted sub.dbNamespace log s ((expireCheck p sub).run s).2 := by
  rw [run_expireCheck_eq]
  split
  · exact evicted_refl h h60
  · rw [evictOverflow, Prog.run_bind, run_readEvents]
    cases lexicalCast (valueAt s.db ("eid." ++ sub.dbNamespace)) with
    | none => exact evicted_refl h h60
    | some eid =>
        have hwithin : ((bufferedKeys sub s.db).foldl
            (Overflow.visit (eid - sub.eventsMax)) {}).Within (bufferedKeys sub s.db) :=
          Overflow.within_foldl _ _ ⟨Or.inl rfl, Or.inl rfl⟩ fun _ hk => hk
        obtain ⟨db₁, hrun, hagree⟩ := run_deleteOverflow hwithin
          (fun _ => isBuffered_of_mem_scan) s
        have h₁ : Represents sub.dbNamespace db₁ log :=
          h.congr hagree (fun hk => indexKey_not_isData _ (IsBuffered.isData hk))
            fun _ hk => recordKey_not_isData _ _ (IsBuffered.isData hk)
        simp only [Prog.run_bind, hrun, run_readEvents]
        obtain ⟨e, keepBin, hm, he, hrep, hagree₂⟩ := evicted_expireBefore (s := ⟨db₁, s.members⟩) p
          h₁ h60 (valueAt db₁ ("data." ++ sub.dbNamespace ++ "." ++
            toIndex (eid - sub.eventsMax).toNat))
        exact ⟨e, keepBin, hm, he, hrep, (hagree.mono fun _ hk => Or.inr hk).trans hagree₂⟩

theorem checked_expireCheck (p : Process) (h : Represents sub.dbNamespace s.db log)
    (h60 : WholeMinute s.members) :
    Checked sub.dbNamespace log s ((expireCheck p sub).run s).2 :=
  (evicted_expireCheck p h h60).checked

/-! ### A whole batch -/

/-- The rows of a batch under their data keys. -/
def batchData (p : Process) (ns : String) (time : EventTime) (batch : Batch) :
    List (String × String) :=
  batch.map fun d => (dataKey ns (toIndex d.2), storedText p time d.1 d.2)

/-- The time that a batch is recorded at. -/
def eventTime (custom_event_time now : EventTime) : EventTime :=
  if custom_event_time ≠ 0 then custom_event_time else now

theorem checked_checkpoint (p : Process) (h : Represents sub.dbNamespace s.db log)
    (h60 : WholeMinute s.members) :
    Checked sub.dbNamespace log s ((checkpoint p sub).run s).2 := by
  rw [checkpoint, Prog.run_bind, run_readMembers]
  by_cases hc : s.members.lastEid % eventsCheckpoint = 0
  · rw [if_pos hc]
    exact checked_expireCheck p h h60
  · rw [if_neg hc]
    exact checked_refl h h60

theorem batchData_isData {ns : String} {time : EventTime} {batch : Batch} :
    ∀ d ∈ batchData p ns time batch, IsData d.1 := by
  intro d hd
  obtain ⟨b, _, rfl⟩ := List.mem_map.mp hd
  exact dataKey_isPrefix ns _

theorem represents_batchData {ns : String} {db : Database} (h : Represents ns db log)
    (time : EventTime) (batch : Batch) :
    Represents ns (Ephemeral.putBatch db kEvents (batchData p ns time batch)) log :=
  h.congr (agreesExcept_putBatch IsData db _ batchData_isData) (indexKey_not_isData ns)
    fun _ => recordKey_not_isData ns _

/-- The database after a batch was stored. -/
def storedBatch (p : Process) (ns : String) (time : EventTime) (batch : Batch) (log : EventLog)
    (db : Database) : Database :=
  Ephemeral.putBatch (Ephemeral.putBatch db kEvents (batchData p ns time batch)) kEvents
    (recordData ns log time (batch.map Prod.snd))

theorem run_storeBatch (time : EventTime) {batch : Batch} (hne : batch ≠ [])
    (h : Represents sub.dbNamespace s.db log) :
    (storeBatch sub (batch.map fun d => (toIndex d.2, storedText p time d.1 d.2)) time).run s =
      (.ok (), ⟨storedBatch p sub.dbNamespace time batch log s.db, s.members⟩) := by
  have hdata : (batch.map fun d => (toIndex d.2, storedText p time d.1 d.2)).map
      (fun d => ("data." ++ sub.dbNamespace ++ "." ++ d.1, d.2)) =
        batchData p sub.dbNamespace time batch := by
    rw [List.map_map]
    rfl
  have hids : (batch.map fun d => (toIndex d.2, storedText p time d.1 d.2)).map Prod.fst =
      (batch.map Prod.snd).map toIndex := by
    rw [List.map_map, List.map_map]
    rfl
  have hrec := run_recordEvents
    (s := ⟨Ephemeral.putBatch s.db kEvents (batchData p sub.dbNamespace time batch), s.members⟩)
    sub time (show batch.map Prod.snd ≠ [] by simpa using hne) (represents_batchData h time batch)
  rw [storeBatch, Prog.run_bind, hdata, run_batchEvents, hids]
  exact hrec

theorem eidKey_not_index (ns : String) : indexKey ns ≠ eidKey ns := by
  intro h
  have hl := congrArg String.toList h
  simp [indexKey, eidKey] at hl

theorem eidKey_not_record (ns x : String) : recordKey ns x ≠ eidKey ns := by
  intro h
  have hl := congrArg String.toList h
  simp [recordKey, eidKey] at hl

theorem Counted.represents {ns : String} {s₁ : State} (hc : Counted ns s s₁)
    (h : Represents ns s.db log) : Represents ns s₁.db log :=
  h.congr hc.agrees (eidKey_not_index ns) fun _ => eidKey_not_record ns _

theorem Counted.wholeMinute {ns : String} {s₁ : State} (hc : Counted ns s s₁)
    (h60 : WholeMinute s.members) : WholeMinute s₁.members := by
  rw [WholeMinute, hc.members]
  exact h60

/-- A batch fails after ids were drawn and the buffer may have been checked, or
it is stored in the database that the check left. -/
theorem run_addBatch (p : Process) (h : Represents sub.dbNamespace s.db log)
    (h60 : WholeMinute s.members) (rows : List Row) (custom now : EventTime) :
    (∃ e s₁ s', (addBatch p sub rows custom now).run s = (.error e, s') ∧
      Counted sub.dbNamespace s s₁ ∧ Checked sub.dbNamespace log s₁ s') ∨
    ∃ batch s₁ s₂, Drawn rows batch s s₁ ∧ batch ≠ [] ∧ Counted sub.dbNamespace s s₁ ∧
      (prepareRows p sub (eventTime custom now) rows).run s =
        (.ok (batch.map fun d => (toIndex d.2, storedText p (eventTime custom now) d.1 d.2)), s₁) ∧
      (checkpoint p sub).run s₁ = (.ok (), s₂) ∧
      ∀ log₂, Represents sub.dbNamespace s₂.db log₂ → (addBatch p sub rows custom now).run s =
        (.ok (), ⟨storedBatch p sub.dbNamespace (eventTime custom now) batch log₂ s₂.db,
          s₂.members⟩) := by
  obtain ⟨result, s₁, hrun, hcount, hok⟩ := run_prepareRows p sub (eventTime custom now) rows s
  have h₁ := hcount.represents h
  have h₁60 := hcount.wholeMinute h60
  have hstart : (addBatch p sub rows custom now).run s = _ := Prog.run_bind _ _ s
  rw [show (if custom ≠ 0 then custom else now) = eventTime custom now from rfl, hrun] at hstart
  cases result with
  | error e => exact Or.inl ⟨e, s₁, s₁, hstart, hcount, checked_refl h₁ h₁60⟩
  | ok prepared =>
      obtain ⟨batch, hdrawn, rfl⟩ := hok prepared rfl
      by_cases hne : batch = []
      · subst hne
        exact Or.inl ⟨_, s₁, s₁, hstart, hcount, checked_refl h₁ h₁60⟩
      · have hne' : (batch.map fun d => (toIndex d.2, storedText p (eventTime custom now) d.1 d.2))
            ≠ [] := by simpa using hne
        have hchecked := checked_checkpoint p h₁ h₁60
        dsimp only at hstart
        rw [if_neg hne', Prog.run_bind] at hstart
        cases hcheck : (checkpoint p sub).run s₁ with
        | mk outcome s₂ =>
            rw [hcheck] at hstart hchecked
            cases outcome with
            | error e => exact Or.inl ⟨e, s₁, s₂, hstart, hcount, hchecked⟩
            | ok _ =>
                refine Or.inr ⟨batch, s₁, s₂, hdrawn, hne, hcount, hrun, hcheck, ?_⟩
                intro log₂ h₂
                rw [hstart]
                exact run_storeBatch _ hne h₂

end Osquery.EventSubscribers
