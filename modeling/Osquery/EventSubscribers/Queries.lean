import Osquery.EventSubscribers.Recording

/-!
# Queries on a subscriber

A query reads the index, which may expire bins, then the records of the bins of
its range that are not before the optimization position, and yields the rows of
those in its time span. It ends by moving the expire time and, with the
optimization on, by saving its position under the name of the executing query.
-/

namespace Osquery.EventSubscribers

open Foundation.AtomicProgram Foundation.JsonText Foundation.Numeral Foundation.Separated
open Foundation.Grouping Core.BackingStore Core.Conversions Core.Rows

variable {p : Process} {sub : Subscriber} {s : State} {log : EventLog}

/-! ### Rows -/

/-- The row that a stored text yields. -/
def rowOf (p : Process) (content : String) : Option Row :=
  if content = "" then none else (deserializeRowJSON p.json content).toOption

/-- The row stored for a record. -/
def rowAt (p : Process) (ns : String) (db : Database) (r : Record) : Option Row :=
  rowOf p (valueAt db (dataKey ns (toIndex r.eid)))

theorem run_yieldRows (p : Process) (keys : List String) (s : State) :
    (yieldRows p keys).run s = (keys.filterMap fun key => rowOf p (valueAt s.db key), s) := by
  induction keys with
  | nil => rfl
  | cons key rest ih =>
      simp only [yieldRows, Prog.run_bind, run_readEvents, ih, List.filterMap_cons, rowOf]
      cases deserializeRowJSON p.json (valueAt s.db key) with
      | error e => by_cases h : valueAt s.db key = "" <;> simp [h, Except.toOption]
      | ok r => by_cases h : valueAt s.db key = "" <;> simp [h, Except.toOption]

/-! ### The executing query -/

/-- The name of the executing query. -/
def executing (db : Database) : String := (lookup db kPersistentSettings kExecutingQuery).getD ""

@[simp] theorem run_readExecuting (s : State) :
    (readValue kPersistentSettings kExecutingQuery : Prog Access String).run s =
      (executing s.db, s) := by
  have hget : (getDatabaseValue kPersistentSettings kExecutingQuery : Prog Access _).run s =
      (Ephemeral.get s.db kPersistentSettings kExecutingQuery, s) := rfl
  rw [readValue, Prog.run_map, hget, toOption_get, executing]

def timeKey (name : String) : String := "optimize." ++ name

def positionKey (name : String) : String := "optimize_eid." ++ name

/-- The database with the position of the executing query. -/
def savePosition (db : Database) (time : EventTime) (eid : UInt64) : Database :=
  if executing db = "" then db
  else Ephemeral.setValue (Ephemeral.setValue db kEvents (timeKey (executing db))
    (toText time.toNat)) kEvents (positionKey (executing db)) (toIndex eid.toNat)

theorem run_setOptimizeData (time : EventTime) (eid : UInt64) (ns : String) (s : State) :
    (setOptimizeData time eid ns).run s = ((), { s with db := savePosition s.db time eid }) := by
  rw [setOptimizeData, Prog.run_bind, run_readExecuting, savePosition]
  split <;> rfl

/-- The stored position of a query. -/
def storedPosition (db : Database) (name : String) : EventTime × UInt64 :=
  if name = "" then (0, 0)
  else (timeFromRecord (valueAt db (timeKey name)), tryToUnsigned (valueAt db (positionKey name)) 0)

theorem run_getOptimizeData (ns : String) (s : State) :
    (getOptimizeData ns).run s =
      (((storedPosition s.db (executing s.db)).1, (storedPosition s.db (executing s.db)).2,
        executing s.db), s) := by
  rw [getOptimizeData, Prog.run_bind, run_readExecuting, storedPosition]
  by_cases h : executing s.db = ""
  · rw [if_pos h, if_pos h]
    rfl
  · simp only [if_neg h, Prog.run_bind, run_readEvents]
    rfl

/-! ### Scanning a time range -/

/-- The records that a scan reads, in binning order. -/
def scanned (p : Process) (m : Members) (start stop : EventTime) (log : EventLog) : List Record :=
  (rangeBins start stop log.bins).flatMap fun b =>
    ((log.expire m).binRecords b).filter (passes p m true)

/-- Whether a record lies in the time span; an end of zero is no end. -/
def inSpan (start stop : EventTime) (r : Record) : Bool :=
  start ≤ readTime r.time && (readTime r.time ≤ stop || stop = 0)

/-- The position after a scan: the id of the last record that was read. -/
def lastPosition (p : Process) (records : List Record) (eid : UInt64) : UInt64 :=
  match records.getLast? with
  | none => eid
  | some last => if p.eventsOptimize = true ∧ last.eid < 2 ^ 64 then UInt64.ofNat last.eid else eid

/-- The expire time after a scan. -/
def nextExpire (sub : Subscriber) (now : EventTime) (m : Members) : EventTime :=
  if sub.eventsExpiry > 0 then
    (now - effectiveExpiry sub m) - (now - effectiveExpiry sub m) % 60
  else m.expireTime

/-- The members after a scan. -/
def afterScan (p : Process) (sub : Subscriber) (start stop now : EventTime) (log : EventLog)
    (m : Members) : Members :=
  { m with
    optimizeEid := lastPosition p (scanned p m start stop log) m.optimizeEid
    expireTime := nextExpire sub now m }

/-- The database after a scan that left another database behind its expiry. -/
def afterSave (p : Process) (m : Members) (db : Database) : Database :=
  if p.eventsOptimize then savePosition db m.optimizeTime m.optimizeEid else db

theorem stoull_toIndex (eid : ℕ) :
    stoull (toIndex eid) = if eid < 2 ^ 64 then .ok (UInt64.ofNat eid) else .error .outOfRange := by
  rw [stoull, toIndex, leading_padded]
  rfl

theorem run_rememberLast (p : Process) (records : List Record) (s : State) :
    (rememberLast p (records.map Record.asEventRecord)).run s =
      ((), ⟨s.db, { s.members with
        optimizeEid := lastPosition p records s.members.optimizeEid }⟩) := by
  rw [rememberLast, List.getLast?_map, lastPosition]
  cases p.eventsOptimize with
  | false => cases records.getLast? <;> rfl
  | true =>
      cases records.getLast? with
      | none => rfl
      | some last =>
          simp only [Option.map_some, if_true, Record.asEventRecord, stoull_toIndex, true_and]
          by_cases hlt : last.eid < 2 ^ 64
          · rw [if_pos hlt, if_pos hlt]
            rfl
          · rw [if_neg hlt, if_neg hlt]
            rfl

theorem run_moveExpireTime (sub : Subscriber) (now : EventTime) (s : State) :
    (moveExpireTime sub now).run s =
      ((), ⟨s.db, s.members.expireAt (nextExpire sub now s.members)⟩) := by
  rw [moveExpireTime, nextExpire]
  split <;> rfl

theorem run_saveOptimizeData (p : Process) (sub : Subscriber) (s : State) :
    (saveOptimizeData p sub).run s = ((), { s with db := afterSave p s.members s.db }) := by
  rw [saveOptimizeData, afterSave]
  split
  · rw [Prog.run_bind, run_readMembers, run_setOptimizeData]
  · rfl

/-- One scan of a subscriber. -/
theorem run_get (p : Process) (h : Represents sub.dbNamespace s.db log)
    (h60 : WholeMinute s.members) (start stop now : EventTime) :
    ∃ db₁, Expired sub.dbNamespace s.members log s.db db₁ ∧
      (get p sub start stop now).run s =
        (((scanned p s.members start stop log).filter (inSpan start stop)).filterMap
            (rowAt p sub.dbNamespace db₁),
          ⟨afterSave p (afterScan p sub start stop now log s.members) db₁,
            afterScan p sub start stop now log s.members⟩) := by
  obtain ⟨db₁, hidx, hexp⟩ := run_getIndexes p h h60 start stop true
  have hrec : (getRecords p sub ((rangeBins start stop log.bins).map fun b => "60." ++ toText b)
      true).run ⟨db₁, s.members⟩ =
        ((scanned p s.members start stop log).map Record.asEventRecord, ⟨db₁, s.members⟩) :=
    run_getRecords hexp.represents.records _ true
  have hkeys : (((scanned p s.members start stop log).map Record.asEventRecord).filter
      fun r => decide (start ≤ r.2) && (decide (r.2 ≤ stop) || decide (stop = 0))).map
        (fun r => "data." ++ sub.dbNamespace ++ "." ++ r.1) =
      ((scanned p s.members start stop log).filter (inSpan start stop)).map fun r =>
        dataKey sub.dbNamespace (toIndex r.eid) := by
    rw [List.filter_map, List.map_map]
    rfl
  refine ⟨db₁, hexp, ?_⟩
  rw [if_pos rfl] at hidx
  simp only [get, Prog.run_bind, hidx, hrec, hkeys, run_rememberLast, run_yieldRows,
    run_moveExpireTime, run_saveOptimizeData, List.filterMap_map]
  rfl

/-! ### The start of a scan -/

/-- The members when an optimized scan begins. -/
def beginScan (db : Database) (now : EventTime) (m : Members) : Members :=
  { m with
    optimizeTime := now - 1
    optimizeEid := (storedPosition db (executing db)).2
    queries := if executing db ≠ "" then insert (executing db) m.queries else m.queries }

theorem run_optimizedStart (sub : Subscriber) (now : EventTime) (s : State) :
    (optimizedStart sub now).run s =
      ((storedPosition s.db (executing s.db)).1, ⟨s.db, beginScan s.db now s.members⟩) := by
  simp only [optimizedStart, Prog.run_bind, run_getOptimizeData, run_updateMembers,
    run_readMembers, beginScan]
  by_cases h : executing s.db ≠ ""
  · rw [if_pos h, if_pos h]
    rfl
  · rw [if_neg h, if_neg h]
    rfl

/-- A scan without a time constraint in a daemon that optimizes. -/
theorem run_genTable_optimized (hd : p.isDaemon = true) (ho : p.eventsOptimize = true)
    (now now' : EventTime) (s : State) :
    (genTable p sub [] now now').run s =
      (get p sub (storedPosition s.db (executing s.db)).1 0 now').run
        ⟨s.db, beginScan s.db now s.members⟩ := by
  have hflag : (p.isDaemon && p.eventsOptimize) = true := by rw [hd, ho, Bool.and_self]
  rw [genTable, if_neg (not_not.mpr rfl), if_pos hflag, Prog.run_bind, run_optimizedStart]

theorem run_genTable_constrained {constraints : List Constraint} (h : constraints ≠ [])
    (now now' : EventTime) (s : State) :
    (genTable p sub constraints now now').run s =
      (get p sub (timeBounds 0 0 constraints).1 (timeBounds 0 0 constraints).2 now').run s := by
  rw [genTable, if_pos h]

/-- Whatever its constraints, a table is generated by one scan; before it only
the members of the optimization change. -/
theorem run_genTable (p : Process) (sub : Subscriber) (constraints : List Constraint)
    (now now' : EventTime) (s : State) :
    ∃ start stop m, (genTable p sub constraints now now').run s =
        (get p sub start stop now').run ⟨s.db, m⟩ ∧
      (m = s.members ∨ constraints = [] ∧ m = beginScan s.db now s.members) := by
  by_cases hc : constraints = []
  · subst hc
    by_cases hflag : p.isDaemon = true ∧ p.eventsOptimize = true
    · exact ⟨_, _, _, run_genTable_optimized hflag.1 hflag.2 now now' s, Or.inr ⟨rfl, rfl⟩⟩
    · refine ⟨0, 0, s.members, ?_, Or.inl rfl⟩
      rw [genTable, if_neg (not_not.mpr rfl), if_neg (by simpa using hflag)]
  · exact ⟨_, _, _, run_genTable_constrained hc now now' s, Or.inl rfl⟩

end Osquery.EventSubscribers
