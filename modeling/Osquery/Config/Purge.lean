import Osquery.Config.ScheduledNames
import Osquery.DifferentialQueries.Isolation

/-!
# Purging the queries domain

Before an update the configuration removes the results of queries that have not
run for a week. It goes through every key of the queries domain as if the key
were the name of a query: a key is safe if some pack has a query spelled like
it, and it expires by the time stored for exactly this text. Results are stored
under the names of scheduled queries, but their epochs, counters and texts have
keys of their own, which no start of a query ever refreshes.

## Implementation notes

The clock is read at most once for a key, so the times of a purge are a
function of the keys. `Store.stamps` is the time stored for a text, by a start
or by the first purge that saw the key; it is not a field of the program but
what the timestamps in the database mean. Steps of other users of the database
may change everything but the queries domain and the timestamps.
-/

namespace Osquery.Config

open Foundation.AtomicProgram Foundation.JsonText Foundation.Numeral
open Core.BackingStore Core.Conversions Core.Rows
open DifferentialQueries (Query DiffResults queryKeys addNewResults addNewResults_writesWithin)
open EventSubscribers (kExecutingQuery)

/-! ### The programs -/

def timestampKey (name : String) : String := "timestamp." ++ name

def intervalKey (name : String) : String := "interval." ++ name

/-- Mark the query as executing and store the time of its start. -/
def recordQueryStart (name : String) (now : UInt64) : Prog DbOp Unit := do
  let _ ← setDatabaseValue kPersistentSettings kExecutingQuery name
  let _ ← setDatabaseValue kPersistentSettings (timestampKey name) (toText now.toNat)
  return ()

/-- Some pack, active or not, has a query of this name. -/
def queryExists (l : PackList) (query_name : String) : Bool :=
  l.packs.any fun p => p.schedule.contains query_name

section Purge

variable (l : PackList)

/-- The results, the epoch, the interval and the timestamp of a saved query. -/
def expireQuery (saved_query : String) : Prog DbOp Unit := do
  let _ ← deleteDatabaseValue kQueries saved_query
  let _ ← deleteDatabaseValue kQueries (saved_query ++ "epoch")
  let _ ← deleteDatabaseValue kPersistentSettings (intervalKey saved_query)
  let _ ← deleteDatabaseValue kPersistentSettings (timestampKey saved_query)
  return ()

/-- One key of the queries domain. -/
def purgeKey (now : UInt64) (saved_query : String) : Prog DbOp Unit := do
  if queryExists l saved_query then return ()
  let content ← readValue kPersistentSettings (timestampKey saved_query)
  if content = "" then
    let _ ← setDatabaseValue kPersistentSettings (timestampKey saved_query) (toText now.toNat)
    return ()
  match lexicalCast content with
  | none =>
      let _ ← deleteDatabaseValue kPersistentSettings (timestampKey saved_query)
      return ()
  | some last_executed =>
      if last_executed < now - 592200 then expireQuery saved_query else return ()

def purgeKeys (clock : String → UInt64) : List String → Prog DbOp Unit
  | [] => return ()
  | saved_query :: rest => do
      purgeKey l (clock saved_query) saved_query
      purgeKeys clock rest

def purge (clock : String → UInt64) : Prog DbOp Unit := do
  let saved_queries ← scanDatabaseKeys kQueries "" 0
  purgeKeys l clock (saved_queries.toOption.getD [])

end Purge

/-! ### Stored times -/

theorem timestampKey_inj {a b : String} : timestampKey a = timestampKey b ↔ a = b :=
  String.append_right_inj _

theorem intervalKey_ne_timestampKey (a b : String) : intervalKey a ≠ timestampKey b := by
  intro h
  have hhead := congrArg (fun s => s.toList.head?) h
  simp [intervalKey, timestampKey] at hhead

theorem executing_ne_timestampKey (name : String) : kExecutingQuery ≠ timestampKey name := by
  intro h
  have hhead := congrArg (fun s => s.toList.head?) h
  simp [kExecutingQuery, timestampKey] at hhead

/-- The time stored for a text. -/
def storedTime (db : Database) (name : String) : Option String :=
  lookup db kPersistentSettings (timestampKey name)

/-- A saved query that the purge expires: no pack has it, and the time stored
for it is older than a week, less three hours and a half. -/
def expires (l : PackList) (db : Database) (now : UInt64) (saved_query : String) : Bool :=
  !queryExists l saved_query &&
    match lexicalCast ((storedTime db saved_query).getD "") with
    | none => false
    | some last_executed => last_executed < now - 592200

/-- The time stored for a saved query after the purge visited it. -/
def timeAfter (now : UInt64) (stored : Option String) : Option String :=
  if stored.getD "" = "" then some (toText now.toNat)
  else
    match lexicalCast (stored.getD "") with
    | none => none
    | some last_executed => if last_executed < now - 592200 then none else stored

/-! ### What one key does -/

theorem run_expireQuery (saved_query : String) (db : Database) :
    ((expireQuery saved_query).run db).2 =
      Ephemeral.remove (Ephemeral.remove (Ephemeral.remove (Ephemeral.remove db kQueries
        saved_query) kQueries (saved_query ++ "epoch")) kPersistentSettings
          (intervalKey saved_query)) kPersistentSettings (timestampKey saved_query) := rfl

theorem lookup_queries_expireQuery (saved_query : String) (db : Database) (k : String) :
    lookup ((expireQuery saved_query).run db).2 kQueries k =
      if k = saved_query ∨ k = saved_query ++ "epoch" then none else lookup db kQueries k := by
  rw [run_expireQuery]
  simp only [lookup_remove]
  by_cases hk : k = saved_query
  · simp [hk, kPersistentSettings, kQueries]
  · by_cases hk' : k = saved_query ++ "epoch"
    · simp [hk', kPersistentSettings, kQueries]
    · simp [hk, hk', Ne.symm hk, Ne.symm hk', kPersistentSettings, kQueries]

theorem storedTime_expireQuery (saved_query : String) (db : Database) (name : String) :
    storedTime ((expireQuery saved_query).run db).2 name =
      if name = saved_query then none else storedTime db name := by
  rw [run_expireQuery, storedTime, storedTime]
  simp only [lookup_remove, timestampKey_inj, intervalKey_ne_timestampKey]
  by_cases hk : name = saved_query
  · simp [hk]
  · simp [Ne.symm hk, hk, kPersistentSettings, kQueries]

section Key

variable (l : PackList) (now : UInt64) (saved_query : String) (db : Database)

/-- The four ways in which a key is visited. -/
theorem purgeKey_cases :
    (queryExists l saved_query = true ∧ (purgeKey l now saved_query).run db = ((), db)) ∨
    (queryExists l saved_query = false ∧ (storedTime db saved_query).getD "" = "" ∧
      (purgeKey l now saved_query).run db = ((), Ephemeral.setValue db kPersistentSettings
        (timestampKey saved_query) (toText now.toNat))) ∨
    (queryExists l saved_query = false ∧ (storedTime db saved_query).getD "" ≠ "" ∧
      lexicalCast ((storedTime db saved_query).getD "") = none ∧
      (purgeKey l now saved_query).run db =
        ((), Ephemeral.remove db kPersistentSettings (timestampKey saved_query))) ∨
    (queryExists l saved_query = false ∧ (storedTime db saved_query).getD "" ≠ "" ∧
      ∃ last_executed,
        lexicalCast ((storedTime db saved_query).getD "") = some last_executed ∧
        (purgeKey l now saved_query).run db =
          if last_executed < now - 592200 then (expireQuery saved_query).run db else ((), db)) := by
  have hread : (readValue kPersistentSettings (timestampKey saved_query) : Prog DbOp String).run
      db = ((storedTime db saved_query).getD "", db) :=
    run_readValue_of_ne_empty (by decide) (timestampKey saved_query) db
  rw [purgeKey]
  cases hexists : queryExists l saved_query with
  | true => exact Or.inl ⟨rfl, rfl⟩
  | false =>
      right
      simp only [Bool.false_eq_true, if_false, Prog.run_bind, hread, true_and]
      by_cases hempty : (storedTime db saved_query).getD "" = ""
      · left
        rw [if_pos hempty]
        exact ⟨hempty, rfl⟩
      · right
        rw [if_neg hempty]
        cases hcast : lexicalCast ((storedTime db saved_query).getD "") with
        | none => exact Or.inl ⟨hempty, rfl, rfl⟩
        | some last_executed =>
            refine Or.inr ⟨hempty, last_executed, rfl, ?_⟩
            simp only
            split <;> rfl

theorem lexicalCast_empty : lexicalCast "" = none := by
  simp [lexicalCast, splitSign]

/-- A key that expires takes the results and the epoch with it. -/
theorem lookup_queries_purgeKey (k : String) :
    lookup ((purgeKey l now saved_query).run db).2 kQueries k =
      if expires l db now saved_query = true ∧ (k = saved_query ∨ k = saved_query ++ "epoch") then
        none
      else lookup db kQueries k := by
  have hdomain : ¬(kPersistentSettings = kQueries ∧ timestampKey saved_query = k) := by
    intro h
    exact absurd h.1 (by decide)
  rcases purgeKey_cases l now saved_query db with ⟨hexists, hrun⟩ | ⟨hexists, htime, hrun⟩ |
    ⟨hexists, htime, hcast, hrun⟩ | ⟨hexists, htime, last_executed, hcast, hrun⟩
  · simp [hrun, expires, hexists]
  · simp [hrun, expires, hexists, htime, lexicalCast_empty, hdomain]
  · simp [hrun, expires, hexists, hcast, hdomain]
  · rw [hrun]
    simp only [expires, hexists, hcast, Bool.not_false, Bool.true_and, decide_eq_true_eq]
    by_cases hold : last_executed < now - 592200
    · rw [if_pos hold, lookup_queries_expireQuery]
      simp only [hold, true_and]
    · simp only [hold, if_false, false_and]

/-- Only the time of the visited key changes. -/
theorem storedTime_purgeKey (name : String) :
    storedTime ((purgeKey l now saved_query).run db).2 name =
      if name = saved_query ∧ queryExists l saved_query = false then
        timeAfter now (storedTime db saved_query)
      else storedTime db name := by
  rcases purgeKey_cases l now saved_query db with ⟨hexists, hrun⟩ | ⟨hexists, htime, hrun⟩ |
    ⟨hexists, htime, hcast, hrun⟩ | ⟨hexists, htime, last_executed, hcast, hrun⟩
  · simp [hrun, hexists]
  · rw [hrun, timeAfter, if_pos htime]
    simp only [storedTime, lookup_setValue, timestampKey_inj, hexists, and_true, true_and]
    simp only [eq_comm]
  · rw [hrun, timeAfter, if_neg htime, hcast]
    simp only [storedTime, lookup_remove, timestampKey_inj, hexists, and_true, true_and]
    simp only [eq_comm]
  · rw [hrun, timeAfter, if_neg htime, hcast]
    simp only [hexists, and_true]
    by_cases hold : last_executed < now - 592200
    · rw [if_pos hold, storedTime_expireQuery]
      simp only [hold, if_true]
    · rw [if_neg hold, if_neg hold]
      by_cases hname : name = saved_query
      · rw [if_pos hname, hname]
      · rw [if_neg hname]

end Key

/-! ### What a purge does -/

section Keys

variable (l : PackList) (clock : String → UInt64)

theorem expires_congr {db db' : Database} {name : String}
    (h : storedTime db' name = storedTime db name) :
    expires l db' (clock name) name = expires l db (clock name) name := by
  rw [expires, expires, h]

/-- The time of another key stays through the visit of a key. -/
theorem storedTime_purgeKey_of_ne {saved_query name : String} (h : name ≠ saved_query)
    (now : UInt64) (db : Database) :
    storedTime ((purgeKey l now saved_query).run db).2 name = storedTime db name := by
  rw [storedTime_purgeKey, if_neg fun hk => h hk.1]

/-- Every expired key of the list takes its results and its epoch with it. -/
theorem lookup_queries_purgeKeys {keys : List String} (hnodup : keys.Nodup) (db : Database)
    (k : String) :
    lookup ((purgeKeys l clock keys).run db).2 kQueries k =
      if ∃ x ∈ keys, expires l db (clock x) x = true ∧ (k = x ∨ k = x ++ "epoch") then none
      else lookup db kQueries k := by
  induction keys generalizing db with
  | nil => simp [purgeKeys]
  | cons saved_query rest ih =>
      rw [List.nodup_cons] at hnodup
      rw [purgeKeys, Prog.run_bind, ih hnodup.2, lookup_queries_purgeKey]
      have hsame : ∀ x ∈ rest,
          expires l ((purgeKey l (clock saved_query) saved_query).run db).2 (clock x) x =
            expires l db (clock x) x := by
        intro x hx
        apply expires_congr
        apply storedTime_purgeKey_of_ne
        rintro rfl
        exact hnodup.1 hx
      have hrest : (∃ x ∈ rest,
          expires l ((purgeKey l (clock saved_query) saved_query).run db).2 (clock x) x = true ∧
            (k = x ∨ k = x ++ "epoch")) ↔
          ∃ x ∈ rest, expires l db (clock x) x = true ∧ (k = x ∨ k = x ++ "epoch") := by
        constructor
        · rintro ⟨x, hx, hexp, hk⟩
          exact ⟨x, hx, by rw [← hsame x hx]; exact hexp, hk⟩
        · rintro ⟨x, hx, hexp, hk⟩
          exact ⟨x, hx, by rw [hsame x hx]; exact hexp, hk⟩
      simp only [hrest, List.mem_cons, exists_eq_or_imp]
      by_cases hx : ∃ x ∈ rest, expires l db (clock x) x = true ∧ (k = x ∨ k = x ++ "epoch")
      · rw [if_pos hx, if_pos (Or.inr hx)]
      · simp only [hx, if_false, or_false]

/-- The time of every visited key is renewed, kept or removed. -/
theorem storedTime_purgeKeys {keys : List String} (hnodup : keys.Nodup) (db : Database)
    (name : String) :
    storedTime ((purgeKeys l clock keys).run db).2 name =
      if name ∈ keys ∧ queryExists l name = false then
        timeAfter (clock name) (storedTime db name)
      else storedTime db name := by
  induction keys generalizing db with
  | nil => simp [purgeKeys]
  | cons saved_query rest ih =>
      rw [List.nodup_cons] at hnodup
      rw [purgeKeys, Prog.run_bind, ih hnodup.2]
      by_cases hname : name = saved_query
      · subst hname
        rw [if_neg fun h => hnodup.1 h.1, storedTime_purgeKey]
        simp only [true_and, List.mem_cons, true_or]
      · rw [storedTime_purgeKey_of_ne l hname]
        simp only [List.mem_cons, hname, false_or]

variable (db : Database)

/-- The keys that a purge goes through. -/
def savedQueries : List String := (Ephemeral.domainOf db kQueries).keys

theorem run_purge : (purge l clock).run db = (purgeKeys l clock (savedQueries db)).run db := by
  have hscan : Ephemeral.scan db kQueries "" 0 = savedQueries db := by
    simp [Ephemeral.scan, savedQueries]
  rw [purge, Prog.run_bind, ← hscan]
  rfl

/-- A key of the queries domain is removed if it expires, or if it is the epoch
of one that expires. -/
theorem lookup_queries_purge (k : String) :
    lookup ((purge l clock).run db).2 kQueries k =
      if ∃ x ∈ savedQueries db, expires l db (clock x) x = true ∧ (k = x ∨ k = x ++ "epoch") then
        none
      else lookup db kQueries k := by
  rw [run_purge]
  exact lookup_queries_purgeKeys l clock Std.ExtTreeMap.nodup_keys db k

theorem storedTime_purge (name : String) :
    storedTime ((purge l clock).run db).2 name =
      if name ∈ savedQueries db ∧ queryExists l name = false then
        timeAfter (clock name) (storedTime db name)
      else storedTime db name := by
  rw [run_purge]
  exact storedTime_purgeKeys l clock Std.ExtTreeMap.nodup_keys db name

end Keys

/-! ### Runs -/

/-- The schedule, the database, and the time stored for every text. -/
structure Store where
  packs : PackList
  db : Database
  stamps : String → Option UInt64

/-- The names that `scheduledQueries` passes for the schedule. -/
def Store.names (delimiter : String) (discovered : List String → Bool) (s : Store) :
    List String :=
  activeNames delimiter (s.packs.packs.map (Pack.view discovered))

def Store.start (name : String) (now : UInt64) (s : Store) : Store :=
  ⟨s.packs, ((recordQueryStart name now).run s.db).2, Function.update s.stamps name (some now)⟩

def Store.addResults (json : JsonLibrary) (q : Query) (rows : QueryData) (epoch : UInt64)
    (dr : DiffResults) (calculate_diff : Bool) (s : Store) : Store :=
  ⟨s.packs, ((addNewResults json q rows epoch dr calculate_diff).run s.db).2, s.stamps⟩

/-- The time stored for a text after a purge. -/
def stampAfter (now : UInt64) : Option UInt64 → Option UInt64
  | none => some now
  | some last_executed => if last_executed < now - 592200 then none else some last_executed

def Store.purge (clock : String → UInt64) (s : Store) : Store where
  packs := s.packs
  db := ((Config.purge s.packs clock).run s.db).2
  stamps name :=
    if name ∈ savedQueries s.db ∧ queryExists s.packs name = false then
      stampAfter (clock name) (s.stamps name)
    else s.stamps name

/-- Runs of an agent: the schedule changes, scheduled queries start and store
their results, and the configuration purges. -/
inductive Store.Reached (json : JsonLibrary) (delimiter : String) : Store → Prop
  | initial (packs : PackList) : Reached json delimiter ⟨packs, ∅, fun _ => none⟩
  | configure {s : Store} (h : Reached json delimiter s) (packs : PackList) :
      Reached json delimiter { s with packs }
  | start {s : Store} (h : Reached json delimiter s) (discovered : List String → Bool)
      (name : String) (hname : name ∈ s.names delimiter discovered) (now : UInt64) :
      Reached json delimiter (s.start name now)
  | addResults {s : Store} (h : Reached json delimiter s) (discovered : List String → Bool)
      (q : Query) (hname : q.name ∈ s.names delimiter discovered) (rows : QueryData)
      (epoch : UInt64) (dr : DiffResults) (calculate_diff : Bool) :
      Reached json delimiter (s.addResults json q rows epoch dr calculate_diff)
  | other {s : Store} (h : Reached json delimiter s) (db : Database)
      (hqueries : ∀ k, lookup db kQueries k = lookup s.db kQueries k)
      (htimes : ∀ name, storedTime db name = storedTime s.db name) :
      Reached json delimiter { s with db }
  | purge {s : Store} (h : Reached json delimiter s) (clock : String → UInt64) :
      Reached json delimiter (s.purge clock)

/-- The timestamps in the database are the times stored for the texts. -/
def Store.Timed (s : Store) : Prop :=
  ∀ name, storedTime s.db name = (s.stamps name).map fun t => toText t.toNat

theorem timeAfter_stamp (now : UInt64) (stamp : Option UInt64) :
    timeAfter now (stamp.map fun t => toText t.toNat) =
      (stampAfter now stamp).map fun t => toText t.toNat := by
  cases stamp with
  | none => rfl
  | some t =>
      rw [timeAfter, Option.map_some, Option.getD_some, if_neg (toText_ne_empty _),
        lexicalCast_toText, stampAfter]
      simp only
      split <;> rfl

theorem Store.Timed.start {s : Store} (h : s.Timed) (name : String) (now : UInt64) :
    (s.start name now).Timed := by
  intro name'
  have hrun : (s.start name now).db = Ephemeral.setValue (Ephemeral.setValue s.db
      kPersistentSettings kExecutingQuery name) kPersistentSettings (timestampKey name)
        (toText now.toNat) := rfl
  have hmark : ¬(kPersistentSettings = kPersistentSettings ∧
      kExecutingQuery = timestampKey name') := fun hk => executing_ne_timestampKey name' hk.2
  rw [hrun, storedTime, lookup_setValue, lookup_setValue, if_neg hmark]
  change _ = (Function.update s.stamps name (some now) name').map _
  rw [Function.update_apply]
  by_cases hname : name' = name
  · subst hname
    rw [if_pos ⟨rfl, rfl⟩, if_pos rfl]
    rfl
  · rw [if_neg fun hk => hname (timestampKey_inj.mp hk.2).symm, if_neg hname]
    exact h name'

theorem Store.Timed.addResults {s : Store} (h : s.Timed) (json : JsonLibrary) (q : Query)
    (rows : QueryData) (epoch : UInt64) (dr : DiffResults) (calculate_diff : Bool) :
    (s.addResults json q rows epoch dr calculate_diff).Timed := by
  intro name
  have hdomain : kPersistentSettings = kQueries → timestampKey name ∉ queryKeys q.name :=
    fun hk => absurd hk (by decide)
  exact (lookup_run_of_outside (addNewResults_writesWithin json q rows epoch dr calculate_diff)
    hdomain s.db).trans (h name)

theorem Store.Timed.purge {s : Store} (h : s.Timed) (clock : String → UInt64) :
    (s.purge clock).Timed := by
  intro name
  change storedTime ((Config.purge s.packs clock).run s.db).2 name = Option.map _ (ite _ _ _)
  rw [storedTime_purge]
  split
  · rw [h name, timeAfter_stamp]
  · exact h name

theorem Store.Reached.timed {json : JsonLibrary} {delimiter : String} {s : Store}
    (h : Reached json delimiter s) : s.Timed := by
  induction h with
  | initial packs => exact fun name => by simp [storedTime, lookup, Ephemeral.domainOf]
  | configure h packs ih => exact ih
  | start h discovered name hname now ih => exact ih.start name now
  | addResults h discovered q hname rows epoch dr calculate_diff ih =>
      exact ih.addResults json q rows epoch dr calculate_diff
  | other h db hqueries htimes ih => exact fun name => (htimes name).trans (ih name)
  | purge h clock ih => exact ih.purge clock

/-! ### Live queries -/

section Live

variable (delimiter : String) (discovered : List String → Bool) (clock : String → UInt64)
  (s : Store)

/-- A purge deletes no results, epoch, counter or text of a scheduled query. -/
def LiveKept : Prop :=
  ∀ name ∈ s.names delimiter discovered, ∀ k ∈ queryKeys name,
    (lookup s.db kQueries k).isSome = true →
      (lookup (s.purge clock).db kQueries k).isSome = true

/-- A saved key that no pack has a query for, with a time too long ago. -/
def Outdated (x : String) : Prop :=
  x ∈ savedQueries s.db ∧ queryExists s.packs x = false ∧
    ∃ t, s.stamps x = some t ∧ t < clock x - 592200

/-- No saved key of a scheduled query is outdated, nor the epoch of an outdated one. -/
def NoneOutdated : Prop :=
  ∀ name ∈ s.names delimiter discovered, ∀ k ∈ queryKeys name,
    (lookup s.db kQueries k).isSome = true →
      ¬Outdated clock s k ∧ ∀ x, k = x ++ "epoch" → ¬Outdated clock s x

variable {delimiter discovered clock s}

theorem Store.Timed.expires_iff (h : s.Timed) (x : String) :
    x ∈ savedQueries s.db ∧ expires s.packs s.db (clock x) x = true ↔ Outdated clock s x := by
  rw [Outdated, expires, h x]
  cases hstamp : s.stamps x with
  | none => simp [lexicalCast_empty]
  | some t =>
      simp only [Option.map_some, Option.getD_some, lexicalCast_toText, Bool.and_eq_true,
        Bool.not_eq_true', decide_eq_true_eq, Option.some.injEq, exists_eq_left']

/-- A stored key survives a purge unless it is outdated or the epoch of an
outdated one. -/
theorem Store.Timed.kept_iff (h : s.Timed) {k : String}
    (hk : (lookup s.db kQueries k).isSome = true) :
    (lookup (s.purge clock).db kQueries k).isSome = true ↔
      ¬Outdated clock s k ∧ ∀ x, k = x ++ "epoch" → ¬Outdated clock s x := by
  change (lookup ((Config.purge s.packs clock).run s.db).2 kQueries k).isSome = true ↔ _
  rw [lookup_queries_purge]
  constructor
  · intro hkept
    constructor
    · intro hold
      obtain ⟨hmem, hexp⟩ := (h.expires_iff k).mpr hold
      rw [if_pos ⟨k, hmem, hexp, Or.inl rfl⟩] at hkept
      simp at hkept
    · rintro x rfl hold
      obtain ⟨hmem, hexp⟩ := (h.expires_iff x).mpr hold
      rw [if_pos ⟨x, hmem, hexp, Or.inr rfl⟩] at hkept
      simp at hkept
  · rintro ⟨hself, hepoch⟩
    rw [if_neg, hk]
    rintro ⟨x, hmem, hexp, rfl | hx⟩
    · exact hself ((h.expires_iff _).mp ⟨hmem, hexp⟩)
    · exact hepoch x hx ((h.expires_iff _).mp ⟨hmem, hexp⟩)

/-- What started within a week, less three hours and a half, is not outdated. -/
theorem not_outdated_of_recent {x : String} {t : UInt64} (ht : s.stamps x = some t)
    (hpast : t ≤ clock x) (hrecent : clock x - t ≤ 592200) (hclock : 592200 ≤ clock x) :
    ¬Outdated clock s x := by
  rintro ⟨-, -, t', ht', hold⟩
  obtain rfl : t = t' := Option.some.inj (ht.symm.trans ht')
  rw [UInt64.le_iff_toNat_le, UInt64.toNat_sub_of_le _ _ hpast] at hrecent
  rw [UInt64.lt_iff_toNat_lt, UInt64.toNat_sub_of_le _ _ hclock] at hold
  rw [UInt64.le_iff_toNat_le] at hpast hclock
  omega

/-- A text without a time is not outdated. -/
theorem not_outdated_of_none {x : String} (hx : s.stamps x = none) : ¬Outdated clock s x := by
  rintro ⟨-, -, t, ht, -⟩
  rw [hx] at ht
  exact Option.some_ne_none t ht.symm

/-- Every scheduled query started within its interval. -/
def RanWithinInterval (delimiter : String) (discovered : List String → Bool) (now : UInt64)
    (s : Store) : Prop :=
  ∀ q ∈ (EventSubscribers.scheduledQueries delimiter now true (s.packs.schedule discovered ∅)).1,
    ∃ t, s.stamps q.1 = some t ∧ t ≤ now ∧ now - t ≤ q.2.interval

end Live

/-- In every run a purge keeps the data of the scheduled queries exactly if none
of it is outdated. -/
theorem purge_keeps_live_iff (json : JsonLibrary) (delimiter : String)
    (discovered : List String → Bool) (clock : String → UInt64) (s : Store)
    (h : s.Reached json delimiter) :
    LiveKept delimiter discovered clock s ↔ NoneOutdated delimiter discovered clock s := by
  constructor
  · intro hkept name hname k hk hstored
    exact (h.timed.kept_iff hstored).mp (hkept name hname k hk hstored)
  · intro hfresh name hname k hk hstored
    exact (h.timed.kept_iff hstored).mpr (hfresh name hname k hk hstored)

/-! ### A query of every hour -/

/-- The pack `main` with one query. -/
def hourlyPacks : PackList := PackList.add (singleton "main" "conf" "q") PackList.empty

/-- The query has run once. -/
def firstRun : Store :=
  (Store.start "q" 1600000000 ⟨hourlyPacks, ∅, fun _ => none⟩).addResults reference
    ⟨"q", "select 1;"⟩ [] 0 {} true

theorem hourly_mem (discovered : List String → Bool) (h : discovered [] = true) (db : Database)
    (stamps : String → Option UInt64) :
    "q" ∈ Store.names "_" discovered ⟨hourlyPacks, db, stamps⟩ := by
  have hactive : (hourlyPacks.packs.map (Pack.view discovered)) =
      [⟨"main", true, [("q", ⟨"select 1;", 3600, some true⟩)]⟩] := by
    have hpacks : hourlyPacks.packs = [singleton "main" "conf" "q"] := rfl
    have hschedule : (singleton "main" "conf" "q").schedule.toList =
        [("q", ⟨"select 1;", 3600, ⟨false, true, true⟩⟩)] := by decide +kernel
    rw [hpacks, List.map_cons, List.map_nil, Pack.view, hschedule]
    simp [singleton, Pack.shouldPackExecute, h, ScheduledQuery.view]
  rw [Store.names, hactive]
  decide

theorem firstRun_reached : firstRun.Reached reference "_" := by
  have hmem := hourly_mem (fun _ => true) rfl
  have hinitial : Store.Reached reference "_" ⟨hourlyPacks, ∅, fun _ => none⟩ :=
    Store.Reached.initial hourlyPacks
  have hstart := hinitial.start (fun _ => true) "q" (hmem _ _) 1600000000
  exact hstart.addResults (fun _ => true) ⟨"q", "select 1;"⟩ (hmem _ _) [] 0 {} true

/-- A minute after its first run nothing of the query is lost. -/
theorem purge_keeps_live_firstRun :
    LiveKept "_" (fun _ => true) (fun _ => 1600000060) firstRun := by
  apply (purge_keeps_live_iff reference "_" (fun _ => true) (fun _ => 1600000060) firstRun
    firstRun_reached).mpr
  have hfresh : ∀ x, ¬Outdated (fun _ => 1600000060) firstRun x := by
    intro x
    by_cases hx : x = "q"
    · subst hx
      exact not_outdated_of_recent (t := 1600000000) rfl (by decide) (by decide) (by decide)
    · apply not_outdated_of_none
      exact Function.update_of_ne hx _ _
  exact fun name hname k hk hstored => ⟨hfresh k, fun x hx => hfresh x⟩

/-- The first purge, and a run a week later. -/
def weekLater : Store := (firstRun.purge fun _ => 1600000060).start "q" 1600601000

/-- A week after the first purge the epoch of a query that ran a minute ago is
removed, since its own time is that of the first purge. -/
theorem purge_drops_epoch :
    weekLater.Reached reference "_" ∧
      RanWithinInterval "_" (fun _ => true) 1600601060 weekLater ∧
      ¬LiveKept "_" (fun _ => true) (fun _ => 1600601060) weekLater := by
  refine ⟨?_, ?_, ?_⟩
  · exact (firstRun_reached.purge _).start (fun _ => true) "q"
      (hourly_mem (fun _ => true) rfl _ _) 1600601000
  · have hqueries : (EventSubscribers.scheduledQueries "_" 1600601060 true
        (weekLater.packs.schedule (fun _ => true) ∅)).1 =
          [("q", ⟨"select 1;", 3600, some true⟩)] := by
      decide +kernel
    intro q hq
    rw [hqueries, List.mem_singleton] at hq
    subst hq
    exact ⟨1600601000, rfl, by decide, by decide⟩
  · intro hkept
    have hstored : (lookup weekLater.db kQueries "qepoch").isSome = true := by decide +kernel
    have hdropped : (lookup (weekLater.purge fun _ => 1600601060).db kQueries
        "qepoch").isSome = false := by
      decide +kernel
    have hmem := hourly_mem (fun _ => true) rfl weekLater.db weekLater.stamps
    have h := hkept "q" hmem "qepoch" (by decide) hstored
    rw [hdropped] at h
    exact Bool.false_ne_true h

end Osquery.Config
