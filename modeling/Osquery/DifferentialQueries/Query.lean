import Osquery.Core.BackingStore
import Osquery.Core.Rows
import Mathlib.Algebra.Order.Sub.Basic
import Mathlib.Data.Multiset.OrderedMonoid

/-!
# The differential query store

A scheduled query keeps four values in the queries domain: its last results
under its name, its epoch and its counter under the name with a suffix, and
its text under the name with a prefix. `addNewResults` compares the stored
results with the current ones and rewrites these values.

## Implementation notes

`std::stoull` throws on a text without a numeral or out of range, and nothing
in this class catches it, so a call ends with a status or with an exception.
A failed call leaves its out-parameters unspecified.
-/

namespace Osquery.DifferentialQueries

open Foundation.AtomicProgram Foundation.JsonText Foundation.Numeral
open Core.BackingStore Core.Rows

/-- A call ends with a status that is not OK, or with an exception. -/
inductive Failure
  | status (message : String)
  | exception (error : ConversionError)
  deriving DecidableEq, Repr

/-- The rows added and removed between two runs of a query. -/
structure DiffResults where
  added : QueryData := []
  removed : QueryData := []
  deriving DecidableEq

/-- Take the current rows out of the old set one by one; a row that is not
there is added, and what is left of the old set is removed. -/
def diffLoop : QueryDataSet → QueryData → QueryData → QueryDataSet × QueryData
  | old, [], added => (old, added)
  | old, i :: rest, added =>
      if i ∈ old then diffLoop (old.erase i) rest added else diffLoop old rest (added ++ [i])

def diff (old : QueryDataSet) (current : QueryData) : DiffResults :=
  let r := diffLoop old current []
  { added := r.2, removed := r.1 }

/-- A named query with its text. -/
structure Query where
  name : String
  query : String
  deriving DecidableEq, Repr

/-- Read a stored numeral with `std::stoull`. -/
def parseStored (raw : String) : Except Failure UInt64 :=
  match stoull raw with
  | .ok n => .ok n
  | .error e => .error (.exception e)

def getPreviousEpoch (q : Query) : Prog DbOp (Except Failure UInt64) := do
  match ← getDatabaseValue kQueries (q.name ++ "epoch") with
  | .ok raw => return parseStored raw
  | .error _ => return .ok 0

def getQueryCounter (q : Query) (new_query : Bool) : Prog DbOp (Except Failure UInt64) := do
  if new_query then
    return .ok 0
  match ← getDatabaseValue kQueries (q.name ++ "counter") with
  | .ok raw => return (parseStored raw).map (· + 1)
  | .error _ => return .ok 0

def getPreviousQueryResults (json : JsonLibrary) (q : Query) :
    Prog DbOp (Except Failure QueryDataSet) := do
  match ← getDatabaseValue kQueries q.name with
  | .error status => return .error (.status status)
  | .ok raw =>
      match deserializeQueryDataJSON json raw with
      | .error status => return .error (.status status)
      | .ok results => return .ok results

def getStoredQueryNames : Prog DbOp (List String) := do
  let results ← scanDatabaseKeys kQueries "" 0
  return results.toOption.getD []

def isQueryNameInDatabase (q : Query) : Prog DbOp Bool := do
  let names ← getStoredQueryNames
  return names.contains q.name

def saveQuery (name query : String) : Prog DbOp Unit := do
  let _ ← setDatabaseValue kQueries ("query." ++ name) query

def isNewQuery (q : Query) : Prog DbOp Bool := do
  let query ← readValue kQueries ("query." ++ q.name)
  return query ≠ q.query

/-- The first part of `addNewResults`: whether the results are fresh, and
whether the query text is new. -/
def classify (q : Query) (current_epoch : UInt64) (calculate_diff : Bool) :
    Prog DbOp (Except Failure (Bool × Bool)) := do
  if !(← isQueryNameInDatabase q) then
    saveQuery q.name q.query
    return .ok (true, false)
  match ← getPreviousEpoch q with
  | .error e => return .error e
  | .ok previous =>
      if previous ≠ current_epoch then
        return .ok (true, false)
      if ← isNewQuery q then
        saveQuery q.name q.query
        return .ok (!calculate_diff, true)
      return .ok (!calculate_diff, false)

/-- The second part: the differential, and whether the store is rewritten.
Fresh results move to `added` and leave `removed` as the caller passed it. -/
def differential (json : JsonLibrary) (q : Query) (current_qd : QueryData) (dr : DiffResults)
    (fresh_results calculate_diff : Bool) : Prog DbOp (Except Failure (DiffResults × Bool)) := do
  if !fresh_results && calculate_diff then
    match ← getPreviousQueryResults json q with
    | .error e => return .error e
    | .ok previous_qd =>
        let dr := diff previous_qd current_qd
        return .ok (dr, !dr.added.isEmpty || !dr.removed.isEmpty)
  return .ok ({ dr with added := current_qd }, true)

/-- The last part: replace the previous results and their epoch. -/
def replaceResults (json : JsonLibrary) (q : Query) (target_gd : QueryData)
    (current_epoch : UInt64) : Prog DbOp (Except Failure Unit) := do
  match ← setDatabaseValue kQueries q.name (serializeQueryDataJSON json target_gd) with
  | .error status => return .error (.status status)
  | .ok () =>
      match ← setDatabaseValue kQueries (q.name ++ "epoch") (toText current_epoch.toNat) with
      | .error status => return .error (.status status)
      | .ok () => return .ok ()

/-- What follows the first part: the differential, the counter and the writes. -/
def update (json : JsonLibrary) (q : Query) (current_qd : QueryData) (current_epoch : UInt64)
    (dr : DiffResults) (fresh_results new_query calculate_diff : Bool) :
    Prog DbOp (Except Failure (UInt64 × DiffResults)) := do
  match ← differential json q current_qd dr fresh_results calculate_diff with
  | .error e => return .error e
  | .ok (dr, update_db) =>
      match ← getQueryCounter q (fresh_results || new_query) with
      | .error e => return .error e
      | .ok counter =>
          match ← setDatabaseValue kQueries (q.name ++ "counter") (toText counter.toNat) with
          | .error status => return .error (.status status)
          | .ok () =>
              if update_db then
                match ← replaceResults json q current_qd current_epoch with
                | .error e => return .error e
                | .ok () => return .ok (counter, dr)
              return .ok (counter, dr)

/-- Store the current results and compute the counter and the differential. -/
def addNewResults (json : JsonLibrary) (q : Query) (current_qd : QueryData)
    (current_epoch : UInt64) (dr : DiffResults) (calculate_diff : Bool) :
    Prog DbOp (Except Failure (UInt64 × DiffResults)) := do
  match ← classify q current_epoch calculate_diff with
  | .error e => return .error e
  | .ok (fresh_results, new_query) =>
      update json q current_qd current_epoch dr fresh_results new_query calculate_diff

/-! ### The differential is a multiset difference -/

private theorem cons_sub_of_notMem {i : Row} {s t : Multiset Row} (h : i ∉ t) :
    (i ::ₘ s) - t = i ::ₘ (s - t) := by
  ext a
  rw [Multiset.count_sub, Multiset.count_cons, Multiset.count_cons, Multiset.count_sub]
  by_cases ha : a = i
  · subst ha
    rw [Multiset.count_eq_zero.mpr h]
    simp
  · simp [ha]

private theorem cons_sub_cons (i : Row) (s t : Multiset Row) :
    (i ::ₘ s) - (i ::ₘ t) = s - t := by
  rw [← Multiset.singleton_add i s, ← Multiset.singleton_add i t, add_tsub_add_eq_tsub_left]

private theorem diffLoop_spec (old : QueryDataSet) (current added : QueryData) :
    ((diffLoop old current added).1 : Multiset Row) = (old : Multiset Row) - current ∧
      ((diffLoop old current added).2 : Multiset Row) = added + ((current : Multiset Row) - old) := by
  induction current generalizing old added with
  | nil => simp [diffLoop]
  | cons i rest ih =>
      rw [diffLoop]
      split
      · rename_i hi
        obtain ⟨h₁, h₂⟩ := ih (old.erase i) added
        have hold : (old : Multiset Row) = i ::ₘ ((old.erase i : List Row) : Multiset Row) := by
          rw [Multiset.cons_coe, Multiset.coe_eq_coe]
          exact List.perm_cons_erase hi
        rw [h₁, h₂, ← Multiset.cons_coe, hold, cons_sub_cons, cons_sub_cons]
        exact ⟨rfl, rfl⟩
      · rename_i hi
        obtain ⟨h₁, h₂⟩ := ih old (added ++ [i])
        have hi' : i ∉ (old : Multiset Row) := by simpa using hi
        rw [h₁, h₂, ← Multiset.cons_coe]
        constructor
        · rw [Multiset.sub_cons, Multiset.erase_of_notMem hi']
        · rw [cons_sub_of_notMem hi', ← Multiset.coe_add, Multiset.coe_singleton, add_assoc,
            Multiset.singleton_add]

theorem diff_removed (old : QueryDataSet) (current : QueryData) :
    ((diff old current).removed : Multiset Row) = (old : Multiset Row) - current :=
  (diffLoop_spec old current []).1

theorem diff_added (old : QueryDataSet) (current : QueryData) :
    ((diff old current).added : Multiset Row) = (current : Multiset Row) - old := by
  have h := (diffLoop_spec old current []).2
  rw [Multiset.coe_nil, zero_add] at h
  exact h

/-- Replaying a differential on the old rows gives the current rows. -/
theorem diff_replay (old : QueryDataSet) (current : QueryData) :
    (old : Multiset Row) - (diff old current).removed + (diff old current).added =
      (current : Multiset Row) := by
  rw [diff_removed, diff_added]
  ext a
  simp only [Multiset.count_add, Multiset.count_sub]
  omega

theorem diff_removed_le (old : QueryDataSet) (current : QueryData) :
    ((diff old current).removed : Multiset Row) ≤ (old : Multiset Row) := by
  rw [diff_removed]
  exact tsub_le_self

theorem diff_disjoint (old : QueryDataSet) (current : QueryData) :
    Disjoint ((diff old current).added : Multiset Row) ((diff old current).removed) := by
  rw [diff_removed, diff_added, Multiset.disjoint_left]
  intro a ha hr
  rw [← Multiset.count_pos, Multiset.count_sub] at ha hr
  omega

/-- An empty differential means that the rows have not changed. -/
theorem eq_of_diff_empty {old : QueryDataSet} {current : QueryData}
    (ha : (diff old current).added = []) (hr : (diff old current).removed = []) :
    (old : Multiset Row) = (current : Multiset Row) := by
  have h := diff_replay old current
  simpa [ha, hr] using h

end Osquery.DifferentialQueries
