import Osquery.Tables.Requests

/-!
# Indexes of several scans

The constraints of a scan are kept under the number of its index until the scan filters with
their values. All tables take the numbers from one counter, whose value is cut to an `int` for
SQLite, so a number comes again after 2³² indexes.

## Implementation notes

A table keeps the values that it filtered with among its constraints. The number is a key after
its conversion back to a size.
-/

namespace Osquery.Tables

open Core.Rows

/-- The key of an index: the counter as an `int`, converted to a `size_t`. -/
def indexKey (kConstraintIndexID : UInt64) : ℕ :=
  (UInt64.ofInt (Int.bmod kConstraintIndexID.toNat (2 ^ 32))).toNat

/-- The values that are not missing or empty are written into the constraints. -/
def storeArguments : List (String × Constraint) → List (Option String) →
    List (String × Constraint)
  | entry :: constraints, argument :: argv =>
      let expr := match argument with
        | none => entry.2.expr
        | some expr => if cstr expr = "" then entry.2.expr else cstr expr
      (entry.1, { entry.2 with expr := expr }) :: storeArguments constraints argv
  | constraints, _ => constraints

/-- What filtering leaves behind in the content. -/
def filterContent (content : VirtualTableContent) (idxNum : ℕ) (argv : List (Option String)) :
    VirtualTableContent :=
  { content with
    constraints :=
      if content.constraints.isEmpty then content.constraints
      else
        content.constraints.insert idxNum
          (storeArguments (content.constraints.getD idxNum []) argv)
    colsUsed :=
      if content.colsUsed.isEmpty then content.colsUsed
      else content.colsUsed.insert idxNum (content.colsUsed.getD idxNum []) }

/-- The tables of a process with the counter that they share. -/
structure TableSystem where
  contents : String → VirtualTableContent
  kConstraintIndexID : UInt64

inductive TableCall
  | xBestIndex (table : String) (q : Query)
  | xFilter (table : String) (idxNum : ℕ) (argv : List (Option String))

namespace TableSystem

def step (s : TableSystem) : TableCall → TableSystem
  | .xBestIndex table q =>
      { contents := Function.update s.contents table
          (xBestIndex (s.contents table) (indexKey s.kConstraintIndexID) q).1
        kConstraintIndexID := s.kConstraintIndexID + 1 }
  | .xFilter table idxNum argv =>
      { s with
        contents := Function.update s.contents table
          (filterContent (s.contents table) idxNum argv) }

def run (calls : List TableCall) (s : TableSystem) : TableSystem := calls.foldl step s

end TableSystem

/-- The argument that SQLite passes for an index of arguments. -/
def argumentAt (argv : List (Option String)) (argvIndex : ℕ) : Option String :=
  (argv[argvIndex - 1]?).join

/-- What a constraint of a query with its index of arguments asks of a column. -/
def askedAt (columns : List Column) (argv : List (Option String)) (name : String)
    (entry : ConstraintInfo × Option ℕ) : Option Constraint :=
  entry.2.bind fun argvIndex =>
    (columnAt columns entry.1.iColumn).bind fun column =>
      (argumentAt argv argvIndex).bind fun expr =>
        if column.name = name ∧ cstr expr ≠ "" then some ⟨entry.1.op, cstr expr⟩ else none

/-- The operators and expressions of the constraints on a column that an index accepted. -/
def acceptedOn (columns : List Column) (q : Query) (plan : Plan) (argv : List (Option String))
    (name : String) : List Constraint :=
  (q.constraints.zip plan.argvIndex).filterMap (askedAt columns argv name)

/-- How many indexes the calls ask for. -/
def countIndexes (calls : List TableCall) : ℕ :=
  calls.countP fun
    | .xBestIndex _ _ => true
    | .xFilter _ _ _ => false

/-- A later index of the table comes a multiple of 2³² indexes after. -/
def Overwritten (table : String) (later : List TableCall) : Prop :=
  ∃ before q rest, later = before ++ .xBestIndex table q :: rest ∧
    (countIndexes before + 1) % 2 ^ 32 = 0

/-! ### Keys -/

theorem indexKey_eq (n : UInt64) :
    indexKey n =
      if n.toNat % 2 ^ 32 < 2 ^ 31 then n.toNat % 2 ^ 32
      else 2 ^ 64 - 2 ^ 32 + n.toNat % 2 ^ 32 := by
  have hn := n.toNat_lt
  rw [indexKey, Int.bmod_def, UInt64.ofInt, UInt64.toNat_ofNat']
  split <;> split <;> omega

theorem indexKey_eq_iff (n m : UInt64) :
    indexKey n = indexKey m ↔ n.toNat % 2 ^ 32 = m.toNat % 2 ^ 32 := by
  rw [indexKey_eq, indexKey_eq]
  split <;> split <;> omega

/-- The key of a later index. -/
theorem indexKey_later (n : UInt64) (count : ℕ) :
    indexKey (n + 1 + UInt64.ofNat count) = indexKey n ↔ (count + 1) % 2 ^ 32 = 0 := by
  rw [indexKey_eq_iff, UInt64.toNat_add, UInt64.toNat_add, UInt64.toNat_ofNat', UInt64.toNat_one]
  omega

/-! ### Arguments by position -/

/-- The indexes of arguments from a number of accepted constraints on. -/
def assignIndexes (columns : List Column) : ℕ → List ConstraintInfo → List (Option ℕ)
  | _, [] => []
  | n, info :: infos =>
      if (pushed columns info).isSome then some (n + 1) :: assignIndexes columns (n + 1) infos
      else none :: assignIndexes columns n infos

theorem foldl_evaluate_argvIndex (columns : List Column) (infos : List ConstraintInfo)
    (plan : Plan) :
    (infos.foldl (Plan.evaluate columns) plan).argvIndex =
      plan.argvIndex ++ assignIndexes columns plan.constraints.length infos := by
  induction infos generalizing plan with
  | nil => simp [assignIndexes]
  | cons info infos ih =>
      rw [List.foldl_cons, ih, (evaluate_eq columns plan info).2, (evaluate_eq columns plan info).1,
        assignIndexes, List.append_assoc, List.length_append]
      cases pushed columns info with
      | none => rfl
      | some entry => rfl

/-- What is asked with an accepted constraint and the argument at its position. -/
theorem askedAt_of_pushed {columns : List Column} {info : ConstraintInfo}
    {entry : String × Constraint} (h : pushed columns info = some entry)
    (argv : List (Option String)) (name : String) (n : ℕ) :
    askedAt columns argv name (info, some (n + 1)) = (argv[n]?).bind fun argument =>
      asked name (entry, argument) := by
  rw [pushed] at h
  split at h
  · exact absurd h (by simp)
  · cases hcolumn : columnAt columns info.iColumn with
    | none =>
        rw [hcolumn] at h
        exact absurd h (by simp)
    | some column =>
        rw [hcolumn, Option.bind_some] at h
        split at h
        · exact absurd h (by simp)
        · obtain rfl := Option.some.inj h
          simp only [askedAt, argumentAt, asked, hcolumn, Option.bind_some, Nat.add_sub_cancel]
          cases argv[n]? with
          | none => rfl
          | some argument => rfl

/-- Pairing by position is pairing by the index of the argument. -/
theorem filterMap_askedAt (columns : List Column) (argv : List (Option String)) (name : String)
    (infos : List ConstraintInfo) (n : ℕ) :
    (infos.zip (assignIndexes columns n infos)).filterMap (askedAt columns argv name) =
      ((infos.filterMap (pushed columns)).zip (argv.drop n)).filterMap (asked name) := by
  induction infos generalizing n with
  | nil => rfl
  | cons info infos ih =>
      rw [assignIndexes]
      cases hpushed : pushed columns info with
      | none =>
          have hnone : askedAt columns argv name (info, none) = none := rfl
          rw [Option.isSome_none, if_neg Bool.noConfusion, List.zip_cons_cons,
            List.filterMap_cons_none hnone, List.filterMap_cons_none hpushed, ih]
      | some entry =>
          rw [Option.isSome_some, if_pos rfl, List.zip_cons_cons, List.filterMap_cons,
            askedAt_of_pushed hpushed, List.filterMap_cons_some hpushed, ih]
          cases hargument : argv[n]? with
          | none =>
              have hlength := List.getElem?_eq_none_iff.mp hargument
              rw [List.drop_eq_nil_of_le hlength,
                List.drop_eq_nil_of_le (hlength.trans (Nat.le_succ n))]
              simp
          | some argument =>
              obtain ⟨hlt, hget⟩ := List.getElem?_eq_some_iff.mp hargument
              rw [List.drop_eq_getElem_cons hlt, hget, List.zip_cons_cons, List.filterMap_cons,
                Option.bind_some]

/-! ### What a table keeps -/

/-- The columns and operators of kept constraints. -/
def shape (constraints : List (String × Constraint)) : List (String × ℕ) :=
  constraints.map fun entry => (entry.1, entry.2.op)

theorem shape_storeArguments (constraints : List (String × Constraint))
    (argv : List (Option String)) :
    shape (storeArguments constraints argv) = shape constraints := by
  induction constraints generalizing argv with
  | nil => rfl
  | cons entry constraints ih =>
      cases argv with
      | nil => rfl
      | cons argument argv => exact congrArg (List.cons _) (ih argv)

/-- The values that were kept before are not looked at. -/
theorem filterMap_asked_congr {constraints constraints' : List (String × Constraint)}
    (h : shape constraints = shape constraints') (argv : List (Option String)) (name : String) :
    (constraints.zip argv).filterMap (asked name) =
      (constraints'.zip argv).filterMap (asked name) := by
  induction constraints generalizing constraints' argv with
  | nil =>
      cases constraints' with
      | nil => rfl
      | cons entry constraints' => cases h
  | cons entry constraints ih =>
      cases constraints' with
      | nil => cases h
      | cons entry' constraints' =>
          obtain ⟨hentry, hrest⟩ := List.cons.inj h
          obtain ⟨hname, hop⟩ := Prod.mk.inj hentry
          cases argv with
          | nil => rfl
          | cons argument argv =>
              have hasked : asked name (entry, argument) = asked name (entry', argument) := by
                simp only [asked, hname, hop]
              rw [List.zip_cons_cons, List.zip_cons_cons, List.filterMap_cons,
                List.filterMap_cons, hasked, ih hrest]

/-- A table still has what it kept under a key. -/
structure Keeps (table : String) (key : ℕ) (s s' : TableSystem) : Prop where
  columns : (s'.contents table).columns = (s.contents table).columns
  constraints : shape ((s'.contents table).constraints.getD key []) =
    shape ((s.contents table).constraints.getD key [])
  colsUsed : (s'.contents table).colsUsed.getD key [] = (s.contents table).colsUsed.getD key []

theorem Keeps.refl (table : String) (key : ℕ) (s : TableSystem) : Keeps table key s s :=
  ⟨rfl, rfl, rfl⟩

theorem Keeps.trans {table : String} {key : ℕ} {s s' s'' : TableSystem}
    (h : Keeps table key s s') (h' : Keeps table key s' s'') : Keeps table key s s'' :=
  ⟨h'.columns.trans h.columns, h'.constraints.trans h.constraints, h'.colsUsed.trans h.colsUsed⟩

theorem filterContent_keeps (content : VirtualTableContent) (idxNum key : ℕ)
    (argv : List (Option String)) :
    shape ((filterContent content idxNum argv).constraints.getD key []) =
        shape (content.constraints.getD key []) ∧
      (filterContent content idxNum argv).colsUsed.getD key [] =
        content.colsUsed.getD key [] := by
  rw [filterContent]
  constructor
  · dsimp only
    split
    · rfl
    · rw [Std.ExtTreeMap.getD_insert]
      split
      · next heq => rw [← Std.LawfulEqOrd.eq_of_compare heq, shape_storeArguments]
      · rfl
  · dsimp only
    split
    · rfl
    · rw [Std.ExtTreeMap.getD_insert]
      split
      · next heq => rw [← Std.LawfulEqOrd.eq_of_compare heq]
      · rfl

/-- Only an index of the table with the same key replaces what is kept under it. -/
theorem Keeps.step {table : String} {key : ℕ} (s : TableSystem) {call : TableCall}
    (h : ∀ q, call = .xBestIndex table q → indexKey s.kConstraintIndexID ≠ key) :
    Keeps table key s (s.step call) := by
  cases call with
  | xBestIndex table' q =>
      by_cases htable : table' = table
      · subst htable
        have hkey := h q rfl
        constructor <;> simp [TableSystem.step, xBestIndex, Std.ExtTreeMap.getD_insert, hkey]
      · constructor <;>
          simp [TableSystem.step, Function.update_of_ne (Ne.symm htable)]
  | xFilter table' idxNum argv =>
      by_cases htable : table' = table
      · subst htable
        obtain ⟨hconstraints, hcolsUsed⟩ :=
          filterContent_keeps (s.contents table') idxNum key argv
        have hself : (s.step (.xFilter table' idxNum argv)).contents table' =
            filterContent (s.contents table') idxNum argv := Function.update_self ..
        constructor
        · rw [hself]
          rfl
        · rw [hself]
          exact hconstraints
        · rw [hself]
          exact hcolsUsed
      · constructor <;>
          simp [TableSystem.step, Function.update_of_ne (Ne.symm htable)]

theorem countIndexes_cons (call : TableCall) (calls : List TableCall) :
    countIndexes (call :: calls) = countIndexes [call] + countIndexes calls := by
  rw [countIndexes, countIndexes, countIndexes, ← List.countP_append]
  rfl

theorem step_kConstraintIndexID (s : TableSystem) (call : TableCall) :
    (s.step call).kConstraintIndexID =
      s.kConstraintIndexID + UInt64.ofNat (countIndexes [call]) := by
  cases call with
  | xBestIndex table q => rfl
  | xFilter table idxNum argv => exact (UInt64.add_zero _).symm

theorem Keeps.run {table : String} {key : ℕ} {calls : List TableCall} (s : TableSystem)
    (h : ∀ before q rest, calls = before ++ .xBestIndex table q :: rest →
      indexKey (s.kConstraintIndexID + UInt64.ofNat (countIndexes before)) ≠ key) :
    Keeps table key s (s.run calls) := by
  induction calls generalizing s with
  | nil => exact Keeps.refl table key s
  | cons call calls ih =>
      have hstep : Keeps table key s (s.step call) := by
        apply Keeps.step
        rintro q rfl
        have hfirst := h [] q calls rfl
        have hnone : UInt64.ofNat (countIndexes []) = 0 := rfl
        rwa [hnone, UInt64.add_zero] at hfirst
      refine hstep.trans (ih (s.step call) fun before q rest hcalls => ?_)
      have hlater := h (call :: before) q rest (congrArg (List.cons call) hcalls)
      rwa [countIndexes_cons, UInt64.ofNat_add, ← UInt64.add_assoc,
        ← step_kConstraintIndexID] at hlater

/-! ### Filtering with an index -/

theorem xFilter_constraintsOn (content : VirtualTableContent) (idxNum : ℕ)
    (argv : List (Option String)) (useCache : Bool) (name : String) :
    (xFilter content idxNum argv useCache).constraintsOn name =
      ((content.constraints.getD idxNum []).zip argv).filterMap (asked name) := by
  rw [QueryContext.constraintsOn, xFilter, (foldl_addArgument _ _ _).1,
    constraints_foldl_addAffinity, Std.ExtTreeMap.getD_empty, List.nil_append]

/-- Filtering with an index that no later one of the table took the key of, the context has on
every column the accepted constraints of the column with their values, in their order, and the
columns that the index found to be used. -/
theorem xFilter_after_xBestIndex (s : TableSystem) (table : String) (q : Query)
    {later : List TableCall} (h : ¬ Overwritten table later) (argv : List (Option String))
    (useCache : Bool) :
    (∀ name, (xFilter (((s.step (.xBestIndex table q)).run later).contents table)
        (indexKey s.kConstraintIndexID) argv useCache).constraintsOn name =
      acceptedOn (s.contents table).columns q
        (xBestIndex (s.contents table) (indexKey s.kConstraintIndexID) q).2 argv name) ∧
    (xFilter (((s.step (.xBestIndex table q)).run later).contents table)
        (indexKey s.kConstraintIndexID) argv useCache).colsUsed =
      some (usedColumns (s.contents table).columns q) := by
  have hself : (s.step (.xBestIndex table q)).contents table =
      (xBestIndex (s.contents table) (indexKey s.kConstraintIndexID) q).1 :=
    Function.update_self ..
  have hkeeps : Keeps table (indexKey s.kConstraintIndexID) (s.step (.xBestIndex table q))
      ((s.step (.xBestIndex table q)).run later) := by
    apply Keeps.run
    intro before q' rest hcalls hkey
    exact h ⟨before, q', rest, hcalls, (indexKey_later _ _).mp hkey⟩
  obtain ⟨-, hconstraints, hcolsUsed⟩ := hkeeps
  rw [hself] at hconstraints hcolsUsed
  constructor
  · intro name
    have hargv := foldl_evaluate_argvIndex (s.contents table).columns q.constraints {}
    have hkept := (foldl_evaluate (s.contents table).columns q.constraints {}).1
    rw [List.nil_append] at hargv hkept
    rw [xFilter_constraintsOn, filterMap_asked_congr hconstraints, acceptedOn]
    simp only [xBestIndex, Std.ExtTreeMap.getD_insert_self]
    rw [hkept, hargv]
    exact (filterMap_askedAt (s.contents table).columns argv name q.constraints 0).symm
  · rw [xFilter, hcolsUsed]
    simp only [xBestIndex, Std.ExtTreeMap.getD_insert_self]

/-- No key comes again before 2³² indexes have been asked for. -/
theorem not_overwritten {later : List TableCall} (h : countIndexes later < 2 ^ 32)
    (table : String) : ¬ Overwritten table later := by
  rintro ⟨before, q, rest, rfl, hcount⟩
  have hlater : countIndexes (before ++ .xBestIndex table q :: rest) =
      countIndexes before + (countIndexes rest + 1) := by
    simp [countIndexes]
  omega

/-! ### An index that is overwritten -/

theorem run_append (calls calls' : List TableCall) (s : TableSystem) :
    s.run (calls ++ calls') = (s.run calls).run calls' := List.foldl_append

theorem run_kConstraintIndexID (calls : List TableCall) (s : TableSystem) :
    (s.run calls).kConstraintIndexID =
      s.kConstraintIndexID + UInt64.ofNat (countIndexes calls) := by
  induction calls generalizing s with
  | nil => exact (UInt64.add_zero _).symm
  | cons call calls ih =>
      rw [countIndexes_cons, UInt64.ofNat_add, ← UInt64.add_assoc, ← step_kConstraintIndexID, ← ih]
      rfl

/-- An index without constraints that took the key leaves a scan without its constraints. -/
theorem xFilter_of_overwritten (s : TableSystem) (table : String) (q : Query)
    {before : List TableCall} {q' : Query} (hcount : (countIndexes before + 1) % 2 ^ 32 = 0)
    (hnone : q'.constraints = []) (argv : List (Option String)) (useCache : Bool)
    (name : String) :
    (xFilter (((s.step (.xBestIndex table q)).run
        (before ++ [.xBestIndex table q'])).contents table)
      (indexKey s.kConstraintIndexID) argv useCache).constraintsOn name = [] := by
  have hkey : indexKey ((s.step (.xBestIndex table q)).run before).kConstraintIndexID =
      indexKey s.kConstraintIndexID := by
    rw [run_kConstraintIndexID]
    exact (indexKey_later _ _).mpr hcount
  have hself : (((s.step (.xBestIndex table q)).run
      (before ++ [.xBestIndex table q'])).contents table).constraints.getD
        (indexKey s.kConstraintIndexID) [] = [] := by
    rw [run_append, ← hkey]
    simp [TableSystem.run, TableSystem.step, xBestIndex, hnone]
  rw [xFilter_constraintsOn, hself]
  rfl

def processTables : TableSystem where
  contents _ := xCreate [.column "pid" .bigint { index := true }, .column "name" .text {}]
  kConstraintIndexID := 0

def pidQuery : Query where
  constraints := [⟨0, EQUALS, true, none⟩]
  used := [0]
  reads := []

def allQuery : Query where
  constraints := []
  used := [0, 1]
  reads := []

theorem xFilter_after_xBestIndex_processes :
    ¬ Overwritten "processes" [.xBestIndex "processes" allQuery, .xBestIndex "users" allQuery] ∧
    (xFilter (((processTables.step (.xBestIndex "processes" pidQuery)).run
        [.xBestIndex "processes" allQuery, .xBestIndex "users" allQuery]).contents "processes")
      (indexKey processTables.kConstraintIndexID) [some "1"] false).constraintsOn "pid" =
        [⟨EQUALS, "1"⟩] := by
  have hlater : ¬ Overwritten "processes"
      [.xBestIndex "processes" allQuery, .xBestIndex "users" allQuery] :=
    not_overwritten (by decide) "processes"
  refine ⟨hlater, ?_⟩
  obtain ⟨hconstraints, -⟩ :=
    xFilter_after_xBestIndex processTables "processes" pidQuery hlater [some "1"] false
  rw [hconstraints "pid"]
  decide +kernel

/-- After 2³² more indexes of the table, a scan with `pid = 1` is told no constraint. -/
theorem constraint_lost_processes :
    (xFilter (((processTables.step (.xBestIndex "processes" pidQuery)).run
        (List.replicate (2 ^ 32) (.xBestIndex "processes" allQuery))).contents "processes")
      (indexKey processTables.kConstraintIndexID) [some "1"] false).constraintsOn "pid" = [] ∧
    acceptedOn (processTables.contents "processes").columns pidQuery
      (xBestIndex (processTables.contents "processes")
        (indexKey processTables.kConstraintIndexID) pidQuery).2 [some "1"] "pid" =
      [⟨EQUALS, "1"⟩] := by
  have hsplit : List.replicate (2 ^ 32) (TableCall.xBestIndex "processes" allQuery) =
      List.replicate (2 ^ 32 - 1) (.xBestIndex "processes" allQuery) ++
        [.xBestIndex "processes" allQuery] := List.replicate_succ'
  have hcount : countIndexes
      (List.replicate (2 ^ 32 - 1) (.xBestIndex "processes" allQuery)) = 2 ^ 32 - 1 := by
    rw [countIndexes, List.countP_replicate, if_pos rfl]
  constructor
  · rw [hsplit]
    apply xFilter_of_overwritten
    · rw [hcount]
      decide
    · rfl
  · decide +kernel

end Osquery.Tables
