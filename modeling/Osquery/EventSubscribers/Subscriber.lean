import Osquery.Core.BackingStore
import Osquery.Core.Conversions
import Osquery.Core.Rows
import Mathlib.Data.Finset.Card

/-!
# Event subscribers

A subscriber stores its events in three families of values: the row of every
event under its id, the records `eid:time` of every minute (a bin) as one
comma-separated text, and the list of bins as another. A query reads the bins
of a time range; in the daemon a query without a time constraint starts where
the same scheduled query stopped, which is remembered as a time and an id.

## Implementation notes

Times are unsigned 64-bit integers and wrap around as in the source. The
reading of the clock is an argument of the functions that read it. The counter
of event ids is a natural number: runs stay below the end of `size_t`.
Programs access the database and the members of the subscriber through
separate operations. `forwardEvent`, the event counter of the statistics and
the log lines have no effect on the modelled state.
-/

namespace Osquery.EventSubscribers

open Foundation.AtomicProgram Foundation.JsonText Foundation.Numeral Foundation.Separated
open Core.BackingStore Core.Conversions Core.Rows

abbrev EventTime := UInt64

def kExecutingQuery : String := "executing_query"

/-- Checkpoint interval to inspect max event buffering. -/
def eventsCheckpoint : ℕ := 256

/-- What the process provides: its JSON library and its flags. -/
structure Process where
  json : JsonLibrary
  isDaemon : Bool
  eventsOptimize : Bool

/-- What a subscriber class fixes. -/
structure Subscriber where
  type : String
  name : String
  eventsExpiry : UInt64
  eventsMax : UInt64

def Subscriber.dbNamespace (sub : Subscriber) : String := sub.type ++ "." ++ sub.name

/-- The members of a subscriber that change. -/
structure Members where
  expireTime : EventTime := 0
  lastEid : ℕ := 0
  optimizeTime : EventTime := 0
  optimizeEid : UInt64 := 0
  minExpiration : UInt64 := 0
  queryCount : ℕ := 0
  queries : Finset String := ∅
  deriving DecidableEq

def Members.expireAt (m : Members) (e : EventTime) : Members := { m with expireTime := e }

/-- The database and the members of one subscriber. -/
structure State where
  db : Database
  members : Members

/-- What a program of a subscriber does in one step. -/
inductive Access : Type → Type 1
  | database {β : Type} (o : DbOp β) : Access β
  | read : Access Members
  | update (f : Members → Members) : Access Unit

def Access.exec {β : Type} : Access β → State → β × State
  | .database o, s => ((o.exec s.db).1, { s with db := (o.exec s.db).2 })
  | .read, s => (s.members, s)
  | .update f, s => ((), { s with members := f s.members })

instance : Executes Access State := ⟨Access.exec⟩

instance : HasDatabase Access := ⟨.database⟩

def readMembers : Prog Access Members := Prog.perform .read

def updateMembers (f : Members → Members) : Prog Access Unit := Prog.perform (.update f)

/-- A call ends with a status that is not OK, or with a failed cast. -/
inductive Failure
  | status (code : ℕ) (message : String)
  | badLexicalCast
  deriving DecidableEq, Repr

/-! ### Times and ids as text -/

/-- Convert a stored index to a time value. -/
def timeFromRecord (record : String) : EventTime := tryToSigned record

def toIndex (i : ℕ) : String := padded 10 i

/-! ### The position of the executing query -/

/-- The time, the id and the name of the executing query. -/
def getOptimizeData (_publisher : String) : Prog Access (EventTime × UInt64 × String) := do
  let query_name ← readValue kPersistentSettings kExecutingQuery
  if query_name = "" then
    return (0, 0, query_name)
  let time ← readValue kEvents ("optimize." ++ query_name)
  let eid ← readValue kEvents ("optimize_eid." ++ query_name)
  return (timeFromRecord time, tryToUnsigned eid 0, query_name)

def setOptimizeData (time : EventTime) (eid : UInt64) (_publisher : String) :
    Prog Access Unit := do
  let query_name ← readValue kPersistentSettings kExecutingQuery
  if query_name = "" then
    return ()
  let _ ← setDatabaseValue kEvents ("optimize." ++ query_name) (toText time.toNat)
  let _ ← setDatabaseValue kEvents ("optimize_eid." ++ query_name) (toIndex eid.toNat)

/-! ### Reading records and expiring bins -/

def executedAllQueries : Prog Access Bool := do
  let m ← readMembers
  return m.queries.card ≥ m.queryCount

/-- An event id as text with the event time. -/
abbrev EventRecord := String × EventTime

section Subscriber

variable (p : Process) (sub : Subscriber)

/-- A record of a bin, unless it is malformed or before the optimization position. -/
def selectRecord (m : Members) (optimize : Bool) (record : String) : Option EventRecord :=
  match split record ":" with
  | [eid, time] =>
      if p.eventsOptimize && optimize && timeFromRecord time ≤ m.optimizeTime + 1 &&
          timeFromRecord eid ≤ m.optimizeEid then none
      else some (eid, timeFromRecord time)
  | _ => none

def getRecords : List String → (optimize : Bool) → Prog Access (List EventRecord)
  | [], _ => pure []
  | index :: rest, optimize => do
      let record_value ← readValue kEvents ("records." ++ sub.dbNamespace ++ "." ++ index)
      let m ← readMembers
      let bin_records :=
        if record_value = "" then []
        else (split record_value ",").filterMap (selectRecord p m optimize)
      let records ← getRecords rest optimize
      return bin_records ++ records

/-- Delete the data of the records that are not after the expire time and
return the others. -/
def dropExpired : List EventRecord → Prog Access (List String)
  | [] => pure []
  | record :: rest => do
      if record.2 ≤ (← readMembers).expireTime then
        let _ ← deleteDatabaseValue kEvents ("data." ++ sub.dbNamespace ++ "." ++ record.1)
        dropExpired rest
      else
        let persisting ← dropExpired rest
        return (record.1 ++ ":" ++ toText record.2.toNat) :: persisting

/-- The whole range of ids is deleted when all records of a bin expire. -/
def deleteData (all : Bool) : List EventRecord → Prog Access (List String)
  | first :: second :: rest => do
      if all then
        let last := (second :: rest).getLast (List.cons_ne_nil _ _)
        let _ ← deleteDatabaseRange kEvents ("data." ++ sub.dbNamespace ++ "." ++ first.1)
          ("data." ++ sub.dbNamespace ++ "." ++ last.1)
        return []
      dropExpired sub (first :: second :: rest)
  | expired_records => dropExpired sub expired_records

def expireRecords (list_type index : String) (all : Bool) : Prog Access Unit := do
  if !(← executedAllQueries) then
    return ()
  let record_key := "records." ++ sub.dbNamespace ++ "." ++ list_type ++ "." ++ index
  let expired_records ← getRecords p sub [list_type ++ "." ++ index] false
  let persisting_records ← deleteData sub all expired_records
  if all then
    let _ ← deleteDatabaseValue kEvents record_key
  else if persisting_records.length < expired_records.length then
    let _ ← setDatabaseValue kEvents record_key (join persisting_records ",")

/-- Expire the records of every listed bin and take it out of the others. -/
def expireBins (list_type : String) : List String → List String → Prog Access (List String)
  | [], persisting_indexes => pure persisting_indexes
  | bin :: rest, persisting_indexes => do
      expireRecords p sub list_type bin true
      expireBins list_type rest (persisting_indexes.filter (· ≠ bin))

def expireIndexes (list_type : String) (indexes expirations : List String) :
    Prog Access Unit := do
  if !(← executedAllQueries) then
    return ()
  let persisting_indexes ← expireBins p sub list_type expirations indexes
  let _ ← setDatabaseValue kEvents ("indexes." ++ sub.dbNamespace ++ "." ++ list_type)
    (join persisting_indexes ",")

/-- Whether a bin lies in the range; an upper bound of zero is no bound. -/
def inRange (l_start r_stop step : EventTime) : Bool :=
  l_start ≤ step && (r_stop = 0 || step < r_stop)

/-- Whether a bin has expired; the records of a bin that straddles the expire
time are expired one by one. -/
def visitBin (sort : Bool) (bin : String) : Prog Access Bool := do
  let step := timeFromRecord bin
  if (step + 1) * 60 ≤ (← readMembers).expireTime then
    return true
  if step * 60 < (← readMembers).expireTime && sort then
    expireRecords p sub "60" bin false
  return false

/-- Walk over the bins, collect those in the range and those that expired. -/
def visitBins (l_start r_stop : EventTime) (sort : Bool) :
    List String → Prog Access (List String × List String)
  | [] => pure ([], [])
  | bin :: rest => do
      let expired ← visitBin p sub sort bin
      let (indexes, expirations) ← visitBins l_start r_stop sort rest
      let step := timeFromRecord bin
      return (if inRange l_start r_stop step && sort then ("60." ++ bin) :: indexes else indexes,
        if expired then bin :: expirations else expirations)

/-- Indexes in binning order. -/
def sortIndexes (indexes : List String) : List String :=
  indexes.insertionSort fun left right =>
    timeFromRecord (afterFirst left '.') ≤ timeFromRecord (afterFirst right '.')

def getIndexes (start stop : EventTime) (sort : Bool) : Prog Access (List String) := do
  let l_start := if start > 0 then start / 60 else 0
  let r_stop := if stop > 0 then stop / 60 + 1 else 0
  let content ← readValue kEvents ("indexes." ++ sub.dbNamespace ++ ".60")
  if content = "" then
    return []
  let bins := splitAnyOf content ","
  let (indexes, expirations) ← visitBins p sub l_start r_stop sort bins
  if expirations ≠ [] then
    expireIndexes p sub "60" bins expirations
  return if sort then sortIndexes indexes else indexes

/-! ### Overflow of the buffer -/

/-- The least and the greatest key below the threshold found so far. -/
structure Overflow where
  minKey : String := ""
  maxKey : String := ""
  minValue : UInt64 := 0
  maxValue : UInt64 := 0

/-- Move the bounds so that they include a key with its id. -/
def Overflow.extend (o : Overflow) (key : String) (value : UInt64) : Overflow :=
  let minValue := if o.minValue = 0 ∨ value < o.minValue then value else o.minValue
  let maxValue := if value > o.maxValue then value else o.maxValue
  { minKey := if minValue = value then key else o.minKey
    maxKey := if maxValue = value then key else o.maxKey
    minValue, maxValue }

/-- A key with an id below the threshold moves the bounds. -/
def Overflow.visit (threshold : UInt64) (o : Overflow) (key : String) : Overflow :=
  let value := tryToUnsigned (afterLast key '.') 0
  if value < threshold then o.extend key value else o

def deleteOverflow (o : Overflow) : Prog Access Unit := do
  if o.minKey ≠ "" then
    if o.maxValue = o.minValue then
      let _ ← deleteDatabaseValue kEvents o.minKey
    else
      let _ ← deleteDatabaseRange kEvents o.minKey o.maxKey

/-- The time column of a stored row. -/
def storedTime (content : String) : Option String :=
  match deserializeRowJSON p.json content with
  | .ok r => r["time"]?
  | .error _ => none

/-- The time of the last surviving row becomes the expire time, and an index
query triggers the expirations. -/
def expireBefore (content : String) : Prog Access (Except Failure Unit) := do
  match storedTime p content with
  | none => return .ok ()
  | some time =>
      match lexicalCast time with
      | none => return .error .badLexicalCast
      | some last_time =>
          updateMembers fun m =>
            if last_time > 0 then m.expireAt (last_time - last_time % 60) else m
          let m ← readMembers
          let _ ← getIndexes p sub m.expireTime 0 false
          return .ok ()

/-- Delete the rows below the threshold id and expire what is older than the
row at the threshold. -/
def evictOverflow (keys : List String) : Prog Access (Except Failure Unit) := do
  let last_key ← readValue kEvents ("eid." ++ sub.dbNamespace)
  match lexicalCast last_key with
  | none => return .error .badLexicalCast
  | some eid =>
      let threshold_key := eid - sub.eventsMax
      deleteOverflow (keys.foldl (Overflow.visit threshold_key) {})
      let content ← readValue kEvents
        ("data." ++ sub.dbNamespace ++ "." ++ toIndex threshold_key.toNat)
      expireBefore p sub content

def expireCheck : Prog Access (Except Failure Unit) := do
  let keys ← scanDatabaseKeys kEvents ("data." ++ sub.dbNamespace) 0
  let keys := keys.toOption.getD []
  if keys.length ≤ sub.eventsMax.toNat then
    return .ok ()
  evictOverflow p sub keys

/-! ### Recording events -/

/-- The first time the last id is read from the database. -/
def restoreEid : Prog Access (Except Failure Unit) := do
  if (← readMembers).lastEid ≠ 0 then
    return .ok ()
  let last_eid_value ← readValue kEvents ("eid." ++ sub.dbNamespace)
  match lexicalCast (if last_eid_value = "" then "0" else last_eid_value) with
  | none => return .error .badLexicalCast
  | some n =>
      updateMembers fun m => { m with lastEid := n.toNat }
      return .ok ()

def getEventID : Prog Access (Except Failure String) := do
  match ← restoreEid sub with
  | .error e => return .error e
  | .ok () =>
      let m ← readMembers
      if m.lastEid % 10 = 0 then
        let _ ← setDatabaseValue kEvents ("eid." ++ sub.dbNamespace) (toIndex (m.lastEid + 10))
      updateMembers fun m => { m with lastEid := m.lastEid + 1 }
      return .ok (toIndex (← readMembers).lastEid)

/-- Append the ids to the records of a bin. A bin without records is new and
is appended to the index. -/
def appendRecords (index_key list_id time_value : String) :
    List String → String → List (String × String) →
      Prog Access (String × List (String × String))
  | [], record_value, database_data => pure (record_value, database_data)
  | eid :: rest, record_value, database_data => do
      if record_value = "" then
        let index_value ← readValue kEvents index_key
        let index_value := if index_value = "" then list_id else index_value ++ "," ++ list_id
        appendRecords index_key list_id time_value rest (eid ++ ":" ++ time_value)
          (database_data ++ [(index_key, index_value)])
      else
        appendRecords index_key list_id time_value rest
          (record_value ++ "," ++ eid ++ ":" ++ time_value) database_data

def recordEvents (event_id_list : List String) (event_time : EventTime) :
    Prog Access (Except Failure Unit) := do
  let list_id := toText (event_time / 60).toNat
  let database_key := "records." ++ sub.dbNamespace ++ ".60." ++ list_id
  let record_value ← readValue kEvents database_key
  let (record_value, database_data) ← appendRecords ("indexes." ++ sub.dbNamespace ++ ".60") list_id
    (toText event_time.toNat) event_id_list record_value []
  match ← setDatabaseBatch kEvents (database_data ++ [(database_key, record_value)]) with
  | .error message => return .error (.status 1 message)
  | .ok () => return .ok ()

/-- Remove the newline at the end. -/
def dropNewline (s : String) : String :=
  if s.toList.getLast? = some '\n' then String.ofList s.toList.dropLast else s

/-- Give every row its time and its id and serialize it. -/
def prepareRows (event_time : EventTime) :
    List Row → Prog Access (Except Failure (List (String × String)))
  | [] => pure (.ok [])
  | row :: rest => do
      match ← getEventID sub with
      | .error e => return .error e
      | .ok eid =>
          let row := (row.insert "time" (toText event_time.toNat)).insert "eid" eid
          match ← prepareRows event_time rest with
          | .error e => return .error e
          | .ok prepared => return .ok ((eid, dropNewline (serializeRowJSON p.json row)) :: prepared)

/-- Use the last id and a checkpoint bucket size to apply buffer eviction. -/
def checkpoint : Prog Access (Except Failure Unit) := do
  if (← readMembers).lastEid % eventsCheckpoint = 0 then
    expireCheck p sub
  else
    return .ok ()

/-- Save the batched data inside the database and record the ids. -/
def storeBatch (prepared : List (String × String)) (event_time : EventTime) :
    Prog Access (Except Failure Unit) := do
  let database_data := prepared.map fun d => ("data." ++ sub.dbNamespace ++ "." ++ d.1, d.2)
  match ← setDatabaseBatch kEvents database_data with
  | .error message => return .error (.status 1 message)
  | .ok () => recordEvents sub (prepared.map Prod.fst) event_time

/-- Store the rows under their ids and record the ids at the event time. -/
def addBatch (row_list : List Row) (custom_event_time now : EventTime) :
    Prog Access (Except Failure Unit) := do
  let event_time := if custom_event_time ≠ 0 then custom_event_time else now
  match ← prepareRows p sub event_time row_list with
  | .error e => return .error e
  | .ok prepared =>
      if prepared = [] then
        return .error (.status 1 "Failed to process the rows")
      match ← checkpoint p sub with
      | .error e => return .error e
      | .ok () => storeBatch sub prepared event_time

/-- `add`: one row at the current time. -/
def add (r : Row) (now : EventTime) : Prog Access (Except Failure Unit) :=
  addBatch p sub [r] now now

/-! ### Queries -/

/-- Yield the rows stored under the keys. -/
def yieldRows : List String → Prog Access (List Row)
  | [] => pure []
  | key :: rest => do
      let data_value ← readValue kEvents key
      let rows ← yieldRows rest
      match deserializeRowJSON p.json data_value with
      | .ok r => return if data_value = "" then rows else r :: rows
      | .error _ => return rows

/-- The lifetime of events, at least what the schedule needs. -/
def effectiveExpiry (m : Members) : UInt64 :=
  if sub.eventsExpiry < m.minExpiration then m.minExpiration else sub.eventsExpiry

/-- If records were returned, the ordered-last becomes the optimization id. -/
def rememberLast (records : List EventRecord) : Prog Access Unit := do
  if p.eventsOptimize then
    match records.getLast? with
    | none => return ()
    | some last =>
        match stoull last.1 with
        | .ok eid => updateMembers fun m => { m with optimizeEid := eid }
        | .error _ => return ()

/-- Set the expire time to now minus the configured lifetime. -/
def moveExpireTime (now : EventTime) : Prog Access Unit := do
  if sub.eventsExpiry > 0 then
    updateMembers fun m =>
      let expire_time := now - effectiveExpiry sub m
      m.expireAt (expire_time - expire_time % 60)

/-- Save the position of the executing query. -/
def saveOptimizeData : Prog Access Unit := do
  if p.eventsOptimize then
    let m ← readMembers
    setOptimizeData m.optimizeTime m.optimizeEid sub.dbNamespace

def get (start stop now : EventTime) : Prog Access (List Row) := do
  let indexes ← getIndexes p sub start stop true
  let records ← getRecords p sub indexes true
  let mapped_records := records.filter fun r => start ≤ r.2 && (r.2 ≤ stop || stop = 0)
  rememberLast p records
  let rows ← yieldRows p (mapped_records.map fun r => "data." ++ sub.dbNamespace ++ "." ++ r.1)
  moveExpireTime sub now
  saveOptimizeData p sub
  return rows

/-- The operators of a constraint. -/
inductive ConstraintOperator
  | equals
  | greaterThan
  | lessThanOrEquals
  | lessThan
  | greaterThanOrEquals
  | matches
  | like
  | glob
  | regexp
  | unique
  deriving DecidableEq, Repr

/-- An operator and an expression on the time column. -/
structure Constraint where
  op : ConstraintOperator
  expr : String
  deriving DecidableEq, Repr

/-- The bounds that constraints on the time column give; equality ends the search. -/
def timeBounds : EventTime → EventTime → List Constraint → EventTime × EventTime
  | start, stop, [] => (start, stop)
  | start, stop, c :: rest =>
      let expr := timeFromRecord c.expr
      match c.op with
      | .equals => (expr, expr)
      | .greaterThan => timeBounds (max start (expr + 1)) stop rest
      | .greaterThanOrEquals => timeBounds (max start expr) stop rest
      | .lessThan => timeBounds start (min stop (expr - 1)) rest
      | .lessThanOrEquals => timeBounds start (min stop expr) rest
      | _ => timeBounds start stop rest

/-- The position of the executing query becomes the start, and the query is
noted as a reader of this subscriber. -/
def optimizedStart (now : EventTime) : Prog Access EventTime := do
  let (time, eid, query_name) ← getOptimizeData sub.dbNamespace
  updateMembers fun m => { m with optimizeTime := time, optimizeEid := eid }
  let m ← readMembers
  updateMembers fun m => { m with optimizeTime := now - 1 }
  if query_name ≠ "" then
    updateMembers fun m => { m with queries := insert query_name m.queries }
  return m.optimizeTime

/-- Generate the table for the constraints on its time column; the clock is
read at the start and at the end. -/
def genTable (constraints : List Constraint) (now now' : EventTime) : Prog Access (List Row) := do
  if constraints ≠ [] then
    let bounds := timeBounds 0 0 constraints
    get p sub bounds.1 bounds.2 now'
  else if p.isDaemon && p.eventsOptimize then
    let start ← optimizedStart sub now
    get p sub start 0 now'
  else
    get p sub 0 0 now'

end Subscriber

end Osquery.EventSubscribers
