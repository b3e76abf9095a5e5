import Osquery.Config.Pack
import Osquery.Core.Status

/-!
# The queue of distributed queries

A work document names queries under their ids. The accepted ones wait in the queries
domain under keys with a prefix of their own; the runner takes the first key, deletes
it, executes its query and keeps the result. The kept results are written in one
document, and are forgotten when the write succeeds.

## Implementation notes

Database operations are those of the in-memory plugin, and assertions are compiled
out, so a member that should be an object and is not is skipped. The outcomes of SQL
queries are inputs; a discovery query is told apart by its position. A step is one
operation on the database, one execution, one write, or the clearing of the results.
The fields after `phase` record what happened so far; the source has none of them.
-/

namespace Osquery.DistributedQueries

open Core Core.BackingStore Core.Rows Config
open Foundation.JsonText Foundation.Numeral Foundation.Separated

def kDistributedQueryPrefix : String := "distributed."

/-- What the execution of a query ends with. -/
structure SQL where
  status : Status
  rows : QueryData
  columns : List String

structure DistributedQueryRequest where
  query : String
  id : String
  deriving DecidableEq

structure DistributedQueryResult where
  request : DistributedQueryRequest
  results : QueryData
  columns : List String
  status : Status

/-- The plugin that results are written to. -/
structure Plugin where
  name : String
  isRegistered : Bool
  writeResults : String → Status

/-- Where the runner is in `runQueries`. -/
inductive Phase
  | idle
  | reading (next : String)
  | deleting (next query : String)
  | executing (request : DistributedQueryRequest)
  | written

structure Distributed where
  db : Database
  results : List DistributedQueryResult
  currentRequestId : String
  phase : Phase
  accepted : List DistributedQueryRequest
  popped : List String
  delivered : List Json

/-- Nothing was accepted yet. -/
def Distributed.new (db : Database) : Distributed := ⟨db, [], "", .idle, [], [], []⟩

/-- The key of a pending query. -/
def queryKey (id : String) : String := kDistributedQueryPrefix ++ id

/-! ### Accepting work -/

/-- The members of an object that is a member itself. -/
def entriesOf (name : String) (doc : Json) : List (String × Json) :=
  match member? name doc with
  | some (.obj entries) => entries
  | _ => []

/-- The names of the discovery queries that returned rows. -/
def discover (sql : ℕ → String → SQL) :
    ℕ → List (String × Json) → List String → Except String (List String)
  | _, [], queries_to_run => .ok queries_to_run
  | n, (key, .str text) :: entries, queries_to_run =>
      let name := cstr key
      let query := cstr text
      if query = "" ∨ name = "" then .error "Distributed discovery query is not a string"
      else if (sql n query).status.ok then
        discover sql (n + 1) entries
          (if (sql n query).rows.length > 0 then name :: queries_to_run else queries_to_run)
      else .error "Distributed discovery query has an SQL error"
  | _, (_, _) :: _, _ => .error "Distributed discovery query is not a string"

/-- Store one query. -/
def accept (request : DistributedQueryRequest) (s : Distributed) : Distributed :=
  { s with
    db := Ephemeral.setValue s.db kQueries (queryKey request.id) request.query
    accepted := s.accepted ++ [request] }

/-- Store the queries that are to run. An empty set of names selects all of them. -/
def enqueue (queries_to_run : List String) :
    List (String × Json) → Distributed → Except String Unit × Distributed
  | [], s => (.ok (), s)
  | (key, .str text) :: entries, s =>
      let name := cstr key
      let query := cstr text
      if name = "" ∨ query = "" then (.error "Distributed query is not a string", s)
      else
        enqueue queries_to_run entries
          (if queries_to_run = [] ∨ name ∈ queries_to_run then accept ⟨query, name⟩ s else s)
  | (_, _) :: _, s => (.error "Distributed query is not a string", s)

/-- The end of a period of `duration` seconds, as `size_t`. -/
def expiry (now : ℕ) (duration : ℤ) : ℕ := (((now : ℤ) + duration) % (2 ^ 64 : ℕ)).toNat

/-- Ask the server more often for a while, if the document says so with an `int`. -/
def accelerate (now : ℕ) (doc : Json) (s : Distributed) : Distributed :=
  match member? "accelerate" doc with
  | some (.int duration) =>
      if -2147483648 ≤ duration ∧ duration ≤ 2147483647 then
        { s with
          db := Ephemeral.setValue s.db kPersistentSettings "distributed_accelerate_checkins_expire"
            (toText (expiry now duration)) }
      else s
  | _ => s

section AcceptWork

variable (json : JsonLibrary) (sql : ℕ → String → SQL) (now : ℕ)

/-- What follows the reading of the document. -/
def acceptDocument (doc : Json) (s : Distributed) : Except String Unit × Distributed :=
  match discover sql 0 (entriesOf "discovery" doc) [] with
  | .error message => (.error message, s)
  | .ok queries_to_run =>
      match enqueue queries_to_run (entriesOf "queries" doc) s with
      | (.error message, s) => (.error message, s)
      | (.ok (), s) => (.ok (), accelerate now doc s)

def acceptWork (work : String) (s : Distributed) : Except String Unit × Distributed :=
  match json.parse (cstr work) with
  | some (.obj members) => acceptDocument sql now (.obj members) s
  | _ => (.error "Error Parsing JSON", s)

end AcceptWork

/-! ### Running queries -/

def pendingKeys (db : Database) : List String :=
  Ephemeral.scan db kQueries kDistributedQueryPrefix 0

def getPendingQueryCount (db : Database) : ℕ := (pendingKeys db).length

/-- The id that a key belongs to. -/
def idOf (key : String) : String :=
  String.ofList (key.toList.drop kDistributedQueryPrefix.length)

/-- A read whose status is ignored. -/
def readQuery (db : Database) (key : String) : String :=
  (Ephemeral.get db kQueries key).toOption.getD ""

/-- Take the first pending query out of the store; there has to be one. -/
def popRequest (s : Distributed) : Option (DistributedQueryRequest × Distributed) :=
  match pendingKeys s.db with
  | [] => none
  | next :: _ =>
      some (⟨readQuery s.db next, idOf next⟩,
        { s with db := Ephemeral.remove s.db kQueries next, popped := s.popped ++ [next] })

def setCurrentRequestId (id : String) (s : Distributed) : Distributed :=
  { s with currentRequestId := id }

def addResult (result : DistributedQueryResult) (s : Distributed) : Distributed :=
  { s with results := s.results ++ [result] }

/-- The result of a request that was executed, with or without success. -/
def resultOf (request : DistributedQueryRequest) (sql : SQL) : DistributedQueryResult :=
  ⟨request, sql.rows, sql.columns, sql.status⟩

/-- `JSON::add`: replace or add a member. -/
def addMember (members : List (String × Json)) (key : String) (value : Json) :
    List (String × Json) :=
  let kept := match members.findIdx? (fun m => m.1 == key) with
    | none => members
    | some i => removeMember members i
  kept ++ [(key, value)]

/-- The document of some results: their rows and their status codes by id. -/
def resultsDocument (results : List DistributedQueryResult) : Json :=
  let objects := results.foldl (fun objects result =>
    (addMember objects.1 result.request.id
        (.arr (serializeQueryData result.results result.columns [])),
      addMember objects.2 result.request.id (.int result.status.code))) ([], [])
  .obj [("queries", .obj objects.1), ("statuses", .obj objects.2)]

def serializeResults (json : JsonLibrary) (s : Distributed) : String :=
  toString json (resultsDocument s.results)

/-- The results are forgotten only after they were written. -/
def flushCompleted (json : JsonLibrary) (plugin : Plugin) (s : Distributed) :
    Status × Distributed :=
  if s.results = [] then (.success, s)
  else if plugin.isRegistered = false then
    (⟨1, "Missing distributed plugin " ++ plugin.name⟩, s)
  else
    let status := plugin.writeResults (serializeResults json s)
    if status.ok then
      (status, { s with results := [], delivered := s.delivered ++ [resultsDocument s.results] })
    else (status, s)

/-- The loop of `runQueries`, at most `n` times. -/
def executePending (sql : String → SQL) : ℕ → Distributed → Distributed
  | 0, s => s
  | n + 1, s =>
      match popRequest s with
      | none => s
      | some (request, s) =>
          executePending sql n
            (addResult (resultOf request (sql request.query)) (setCurrentRequestId request.id s))

/-- Every iteration deletes a pending key, so their number bounds the loop. -/
def runQueries (json : JsonLibrary) (plugin : Plugin) (sql : String → SQL) (s : Distributed) :
    Status × Distributed :=
  flushCompleted json plugin (executePending sql (getPendingQueryCount s.db) s)

/-! ### Steps -/

/-- The next step of the loop of `runQueries`. -/
def advance (outcome : SQL) (s : Distributed) : Distributed :=
  match s.phase with
  | .idle =>
      match pendingKeys s.db with
      | [] => s
      | next :: _ => { s with phase := .reading next }
  | .reading next => { s with phase := .deleting next (readQuery s.db next) }
  | .deleting next query =>
      { s with
        phase := .executing ⟨query, idOf next⟩
        db := Ephemeral.remove s.db kQueries next
        currentRequestId := idOf next
        popped := s.popped ++ [next] }
  | .executing request =>
      { s with phase := .idle, results := s.results ++ [resultOf request outcome] }
  | .written => { s with phase := .idle, results := [] }

/-- An attempt to write the results. -/
def flush (isWritten : Bool) (s : Distributed) : Distributed :=
  match s.phase with
  | .idle =>
      if s.results ≠ [] ∧ isWritten = true then
        { s with phase := .written, delivered := s.delivered ++ [resultsDocument s.results] }
      else s
  | _ => s

inductive Action
  | accept (request : DistributedQueryRequest)
  | accelerate (now : ℕ) (doc : Json)
  | runQueries (outcome : SQL)
  | flush (isWritten : Bool)

def step (s : Distributed) : Action → Distributed
  | .accept request => accept request s
  | .accelerate now doc => accelerate now doc s
  | .runQueries outcome => advance outcome s
  | .flush isWritten => flush isWritten s

def run (actions : List Action) (s : Distributed) : Distributed := actions.foldl step s

@[simp] theorem run_nil (s : Distributed) : run [] s = s := rfl

@[simp] theorem run_cons (a : Action) (actions : List Action) (s : Distributed) :
    run (a :: actions) s = run actions (step s a) := rfl

theorem run_append (actions actions' : List Action) (s : Distributed) :
    run (actions ++ actions') s = run actions' (run actions s) := List.foldl_append

/-! ### Pending keys -/

theorem mem_pendingKeys {db : Database} {key : String} :
    key ∈ pendingKeys db ↔
      (lookup db kQueries key).isSome = true ∧ kDistributedQueryPrefix.toList <+: key.toList :=
  mem_scan_zero

theorem nodup_pendingKeys (db : Database) : (pendingKeys db).Nodup := nodup_scan _ _ _ _

@[simp] theorem idOf_queryKey (id : String) : idOf (queryKey id) = id :=
  ofList_drop_append kDistributedQueryPrefix id

theorem queryKey_inj {id id' : String} (h : queryKey id = queryKey id') : id = id' := by
  rw [← idOf_queryKey id, h, idOf_queryKey]

/-- A key with the prefix is the key of its id. -/
theorem queryKey_idOf {key : String} (h : kDistributedQueryPrefix.toList <+: key.toList) :
    queryKey (idOf key) = key := append_ofList_drop h

theorem prefix_queryKey (id : String) :
    kDistributedQueryPrefix.toList <+: (queryKey id).toList := by
  rw [queryKey, String.toList_append]
  exact List.prefix_append _ _

/-- Deleting a pending key takes it off the queue. -/
theorem pendingKeys_remove (db : Database) (next : String) :
    (pendingKeys (Ephemeral.remove db kQueries next)).Perm ((pendingKeys db).erase next) := by
  apply (List.perm_ext_iff_of_nodup (nodup_pendingKeys _) ((nodup_pendingKeys db).erase next)).mpr
  intro key
  rw [mem_pendingKeys, (nodup_pendingKeys db).mem_erase_iff, mem_pendingKeys, lookup_remove]
  by_cases hkey : next = key
  · simp [hkey]
  · simp [hkey, Ne.symm hkey]

/-- The bound on the loop is enough: it ends with an empty queue. -/
theorem pendingKeys_executePending (sql : String → SQL) (n : ℕ) (s : Distributed)
    (h : getPendingQueryCount s.db ≤ n) : pendingKeys (executePending sql n s).db = [] := by
  induction n generalizing s with
  | zero => exact List.length_eq_zero_iff.mp (Nat.le_zero.mp h)
  | succ n ih =>
      rw [executePending, popRequest]
      cases hkeys : pendingKeys s.db with
      | nil => exact hkeys
      | cons next rest =>
          apply ih
          have hmem : next ∈ pendingKeys s.db := hkeys ▸ List.mem_cons_self
          have hlength := (pendingKeys_remove s.db next).length_eq
          rw [List.length_erase_of_mem hmem] at hlength
          have hcount : getPendingQueryCount (Ephemeral.remove s.db kQueries next) =
              getPendingQueryCount s.db - 1 := hlength
          change getPendingQueryCount (Ephemeral.remove s.db kQueries next) ≤ n
          omega

/-! ### The steps cover the programs -/

/-- Storing the selected queries is a sequence of steps. -/
theorem enqueue_eq_run (queries_to_run : List String) (entries : List (String × Json))
    (s : Distributed) :
    ∃ requests : List DistributedQueryRequest,
      (enqueue queries_to_run entries s).2 = run (requests.map .accept) s := by
  induction entries generalizing s with
  | nil => exact ⟨[], rfl⟩
  | cons entry entries ih =>
      obtain ⟨key, value⟩ := entry
      cases value with
      | str text =>
          simp only [enqueue]
          split
          · exact ⟨[], rfl⟩
          · split
            · obtain ⟨requests, hrequests⟩ := ih (accept ⟨cstr text, cstr key⟩ s)
              exact ⟨⟨cstr text, cstr key⟩ :: requests, hrequests⟩
            · exact ih s
      | _ => exact ⟨[], rfl⟩

/-- Every call of `acceptWork` is a sequence of steps. -/
theorem acceptWork_eq_run (json : JsonLibrary) (sql : ℕ → String → SQL) (now : ℕ) (work : String)
    (s : Distributed) : ∃ actions, (acceptWork json sql now work s).2 = run actions s := by
  rw [acceptWork]
  split
  · rename_i members hparse
    rw [acceptDocument]
    split
    · exact ⟨[], rfl⟩
    · rename_i queries_to_run hdiscover
      obtain ⟨requests, hrequests⟩ := enqueue_eq_run queries_to_run
        (entriesOf "queries" (.obj members)) s
      split
      · rename_i heq
        rw [heq] at hrequests
        exact ⟨_, hrequests⟩
      · rename_i heq
        rw [heq] at hrequests
        refine ⟨requests.map .accept ++ [.accelerate now (.obj members)], ?_⟩
        rw [run_append, ← hrequests]
        rfl
  · exact ⟨[], rfl⟩

/-- One iteration of the loop is four steps. -/
theorem run_iteration {s s' : Distributed} {request : DistributedQueryRequest} (outcome : SQL)
    (hidle : s.phase = .idle) (hpop : popRequest s = some (request, s')) :
    run (List.replicate 4 (.runQueries outcome)) s =
      addResult (resultOf request outcome) (setCurrentRequestId request.id s') := by
  obtain ⟨db, results, currentRequestId, phase, accepted, popped, delivered⟩ := s
  obtain rfl : phase = .idle := hidle
  simp only [popRequest] at hpop
  split at hpop
  · cases hpop
  · rename_i next rest hkeys
    simp only [Option.some.injEq, Prod.mk.injEq] at hpop
    obtain ⟨rfl, rfl⟩ := hpop
    simp only [List.replicate_succ, List.replicate_zero, run_cons, run_nil, step, advance, hkeys]
    rfl

theorem phase_executePending (sql : String → SQL) (n : ℕ) {s : Distributed}
    (h : s.phase = .idle) :
    ∃ actions, executePending sql n s = run actions s ∧ (executePending sql n s).phase = .idle := by
  induction n generalizing s with
  | zero => exact ⟨[], rfl, h⟩
  | succ n ih =>
      rw [executePending]
      cases hpop : popRequest s with
      | none => exact ⟨[], rfl, h⟩
      | some popped =>
          obtain ⟨request, s'⟩ := popped
          have hrun := run_iteration (sql request.query) h hpop
          have hphase : s'.phase = .idle := by
            simp only [popRequest] at hpop
            split at hpop
            · cases hpop
            · simp only [Option.some.injEq, Prod.mk.injEq] at hpop
              exact hpop.2 ▸ h
          obtain ⟨actions, hactions, hidle⟩ := ih (s := addResult
            (resultOf request (sql request.query)) (setCurrentRequestId request.id s')) hphase
          refine ⟨List.replicate 4 (.runQueries (sql request.query)) ++ actions, ?_, hidle⟩
          rw [run_append, hrun, ← hactions]

/-- The whole of `runQueries` is a sequence of steps. -/
theorem runQueries_eq_run (json : JsonLibrary) (plugin : Plugin) (sql : String → SQL)
    {s : Distributed} (h : s.phase = .idle) :
    ∃ actions, (runQueries json plugin sql s).2 = run actions s := by
  obtain ⟨actions, hactions, hidle⟩ := phase_executePending sql (getPendingQueryCount s.db) h
  rw [runQueries, flushCompleted]
  split
  · exact ⟨actions, hactions⟩
  · rename_i hresults
    split
    · exact ⟨actions, hactions⟩
    · dsimp only
      split
      · refine ⟨actions ++ [.flush true, .runQueries ⟨.success, [], []⟩], ?_⟩
        rw [run_append, ← hactions]
        generalize executePending sql (getPendingQueryCount s.db) s = t at hresults hidle
        obtain ⟨db, results, currentRequestId, phase, accepted, popped, delivered⟩ := t
        obtain rfl : phase = .idle := hidle
        simp [step, flush, advance, hresults]
      · exact ⟨actions, hactions⟩

end Osquery.DistributedQueries
