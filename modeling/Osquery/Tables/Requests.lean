import Osquery.Tables.VirtualTable

/-!
# What a generator is told

A scan goes through two callbacks before the generator is called. The first one keeps
the constraints that it accepts, the second one adds their values. What the generator
finds on a column is therefore determined by the constraints of the query one by one,
and the columns that it is told are used by the bits of the mask.
-/

namespace Osquery.Tables

open Core.Rows

/-- The constraint that is kept for a constraint of a query. -/
def pushed (columns : List Column) (info : ConstraintInfo) : Option (String × Constraint) :=
  if info.usable = false then none
  else
    (columnAt columns info.iColumn).bind fun column =>
      if sensibleComparison column.type info.op = false then none
      else some (column.name, ⟨info.op, ""⟩)

/-- What a kept constraint with an argument asks of a column. -/
def asked (name : String) (entry : (String × Constraint) × Option String) : Option Constraint :=
  entry.2.bind fun expr =>
    if entry.1.1 = name ∧ cstr expr ≠ "" then some ⟨entry.1.2.op, cstr expr⟩ else none

/-- What the constraints of a query ask of a column. -/
def requested (columns : List Column) (q : Query) (name : String) : List Constraint :=
  q.constraints.filterMap fun info =>
    (pushed columns info).bind fun entry => asked name (entry, info.argument)

/-! ### Choosing an index -/

theorem evaluate_eq (columns : List Column) (plan : Plan) (info : ConstraintInfo) :
    (plan.evaluate columns info).constraints =
        plan.constraints ++ (pushed columns info).toList ∧
      (plan.evaluate columns info).argvIndex = plan.argvIndex ++
        [if (pushed columns info).isSome then some (plan.constraints.length + 1) else none] := by
  rw [Plan.evaluate, pushed]
  by_cases husable : info.usable = false
  · simp [husable, Plan.reject]
  · cases hcolumn : columnAt columns info.iColumn with
    | none => simp [husable, Plan.reject]
    | some column =>
        by_cases hsensible : sensibleComparison column.type info.op = false
        · simp [husable, hsensible, Plan.reject]
        · simp [husable, hsensible]

theorem foldl_evaluate (columns : List Column) (infos : List ConstraintInfo) (plan : Plan) :
    (infos.foldl (Plan.evaluate columns) plan).constraints =
        plan.constraints ++ infos.filterMap (pushed columns) ∧
      (infos.foldl (Plan.evaluate columns) plan).argvIndex.map Option.isSome =
        plan.argvIndex.map Option.isSome ++
          infos.map fun info => (pushed columns info).isSome := by
  induction infos generalizing plan with
  | nil => simp
  | cons info infos ih =>
      obtain ⟨hconstraints, hargv⟩ := evaluate_eq columns plan info
      obtain ⟨ihconstraints, ihargv⟩ := ih (plan.evaluate columns info)
      rw [List.foldl_cons, ihconstraints, ihargv, hconstraints, hargv]
      constructor
      · cases h : pushed columns info with
        | none => simp [List.filterMap_cons_none h]
        | some entry => simp [List.filterMap_cons_some h]
      · cases h : pushed columns info <;> simp [h]

/-- The arguments of the constraints that are kept, in their order. -/
theorem filterMap_zip_isSome (infos : List ConstraintInfo) (indexes : List (Option ℕ))
    (p : ConstraintInfo → Bool) (h : indexes.map Option.isSome = infos.map p) :
    ((infos.zip indexes).filterMap fun entry => entry.2.map fun _ => entry.1.argument) =
      infos.filterMap fun info => if p info then some info.argument else none := by
  induction infos generalizing indexes with
  | nil => simp
  | cons info infos ih =>
      cases indexes with
      | nil => cases h
      | cons index indexes =>
          simp only [List.map_cons, List.cons.injEq] at h
          rw [List.zip_cons_cons, List.filterMap_cons, List.filterMap_cons, ih indexes h.2,
            ← h.1]
          cases index with
          | none => rfl
          | some n => rfl

theorem zip_filterMap {α β γ : Type*} (f : α → Option β) (g : α → γ) (l : List α) :
    ((l.filterMap f).zip (l.filterMap fun a => if (f a).isSome then some (g a) else none)) =
      l.filterMap fun a => (f a).map fun b => (b, g a) := by
  induction l with
  | nil => rfl
  | cons a l ih =>
      cases h : f a with
      | none => simpa [List.filterMap_cons, h] using ih
      | some b => simpa [List.filterMap_cons, h] using ih

/-- The kept constraints of a query with their arguments. -/
theorem zip_argv (columns : List Column) (q : Query) :
    ((q.constraints.foldl (Plan.evaluate columns) {}).constraints.zip
        (argv q (q.constraints.foldl (Plan.evaluate columns) {}))) =
      q.constraints.filterMap fun info =>
        (pushed columns info).map fun entry => (entry, info.argument) := by
  obtain ⟨hconstraints, hargv⟩ := foldl_evaluate columns q.constraints {}
  have hkept : argv q (q.constraints.foldl (Plan.evaluate columns) {}) =
      q.constraints.filterMap fun info =>
        if (pushed columns info).isSome then some info.argument else none := by
    rw [argv]
    apply filterMap_zip_isSome
    simpa using hargv
  rw [hconstraints, hkept]
  exact zip_filterMap (pushed columns) ConstraintInfo.argument q.constraints

/-! ### Filtering -/

theorem constraints_addAffinity (constraints : Std.ExtTreeMap String ConstraintList)
    (column : Column) (name : String) :
    ((addAffinity constraints column).getD name {}).constraints =
      (constraints.getD name {}).constraints := by
  rw [addAffinity, Std.ExtTreeMap.getD_insert]
  split
  · next h => rw [Std.LawfulEqOrd.eq_of_compare h]
  · rfl

theorem affinity_addAffinity (constraints : Std.ExtTreeMap String ConstraintList)
    (column : Column) (name : String) :
    ((addAffinity constraints column).getD name {}).affinity =
      if column.name = name then column.type else (constraints.getD name {}).affinity := by
  rw [addAffinity, Std.ExtTreeMap.getD_insert]
  by_cases h : column.name = name
  · simp [h]
  · simp [h]

theorem constraints_foldl_addAffinity (columns : List Column)
    (constraints : Std.ExtTreeMap String ConstraintList) (name : String) :
    ((columns.foldl addAffinity constraints).getD name {}).constraints =
      (constraints.getD name {}).constraints := by
  induction columns generalizing constraints with
  | nil => rfl
  | cons column columns ih =>
      rw [List.foldl_cons, ih, constraints_addAffinity]

/-- The affinity of a name is the type of the columns with the name, where they agree. -/
theorem affinity_foldl_addAffinity (columns : List Column)
    (constraints : Std.ExtTreeMap String ConstraintList) (name : String) (type : ColumnType)
    (h : ∀ column ∈ columns, column.name = name → column.type = type)
    (hsome : (∃ column ∈ columns, column.name = name) ∨
      (constraints.getD name {}).affinity = type) :
    ((columns.foldl addAffinity constraints).getD name {}).affinity = type := by
  induction columns generalizing constraints with
  | nil => simpa using hsome
  | cons column columns ih =>
      rw [List.foldl_cons]
      apply ih
      · intro c hc
        exact h c (List.mem_cons_of_mem _ hc)
      · rw [affinity_addAffinity]
        by_cases hname : column.name = name
        · right
          rw [if_pos hname]
          exact h column List.mem_cons_self hname
        · rw [if_neg hname]
          obtain ⟨c, hc, hcname⟩ | hsome := hsome
          · left
            obtain rfl | hc := List.mem_cons.mp hc
            · exact absurd hcname hname
            · exact ⟨c, hc, hcname⟩
          · right
            exact hsome

theorem addArgument_eq (constraints : Std.ExtTreeMap String ConstraintList)
    (entry : (String × Constraint) × Option String) (name : String) :
    ((addArgument constraints entry).getD name {}).constraints =
        (constraints.getD name {}).constraints ++ (asked name entry).toList ∧
      ((addArgument constraints entry).getD name {}).affinity =
        (constraints.getD name {}).affinity := by
  obtain ⟨⟨column, constraint⟩, argument⟩ := entry
  cases argument with
  | none => simp [addArgument, asked]
  | some expr =>
      by_cases hempty : cstr expr = ""
      · simp [addArgument, asked, hempty]
      · simp only [addArgument, asked, if_neg hempty, Std.ExtTreeMap.getD_insert]
        by_cases hname : column = name
        · subst hname
          simp [hempty]
        · simp [hname]

theorem foldl_addArgument (entries : List ((String × Constraint) × Option String))
    (constraints : Std.ExtTreeMap String ConstraintList) (name : String) :
    ((entries.foldl addArgument constraints).getD name {}).constraints =
        (constraints.getD name {}).constraints ++ entries.filterMap (asked name) ∧
      ((entries.foldl addArgument constraints).getD name {}).affinity =
        (constraints.getD name {}).affinity := by
  induction entries generalizing constraints with
  | nil => simp
  | cons entry entries ih =>
      obtain ⟨hconstraints, haffinity⟩ := addArgument_eq constraints entry name
      obtain ⟨ihconstraints, ihaffinity⟩ := ih (addArgument constraints entry)
      rw [List.foldl_cons, ihconstraints, ihaffinity, hconstraints, haffinity]
      constructor
      · cases h : asked name entry with
        | none => simp [List.filterMap_cons_none h]
        | some constraint => simp [List.filterMap_cons_some h]
      · rfl

/-! ### The context of a scan -/

theorem prepare_constraints (q : Query) (useCache : Bool) (s : State) :
    (prepare q useCache s).2.constraints =
      (q.constraints.filterMap fun info =>
        (pushed s.content.columns info).map fun entry => (entry, info.argument)).foldl
          addArgument (s.content.columns.foldl addAffinity ∅) := by
  rw [← zip_argv]
  simp [prepare, xBestIndex, xFilter]

theorem prepare_constraintsOn (q : Query) (useCache : Bool) (s : State) (name : String) :
    (prepare q useCache s).2.constraintsOn name = requested s.content.columns q name := by
  rw [QueryContext.constraintsOn, prepare_constraints, (foldl_addArgument _ _ _).1,
    constraints_foldl_addAffinity, requested, List.filterMap_filterMap]
  simp only [Std.ExtTreeMap.getD_empty, List.nil_append]
  apply List.filterMap_congr
  intro info _
  cases pushed s.content.columns info with
  | none => rfl
  | some entry => rfl

theorem prepare_affinity (q : Query) (useCache : Bool) (s : State) {column : Column}
    (hmem : column ∈ s.content.columns)
    (h : ∀ c ∈ s.content.columns, c.name = column.name → c.type = column.type) :
    ((prepare q useCache s).2.constraints.getD column.name {}).affinity = column.type := by
  rw [prepare_constraints, (foldl_addArgument _ _ _).2]
  apply affinity_foldl_addAffinity _ _ _ _ h
  left
  exact ⟨column, hmem, rfl⟩

theorem mem_usedColumns (columns : List Column) (q : Query) (name : String) :
    name ∈ usedColumns columns q ↔
      ∃ i column, columns[i]? = some column ∧ q.colUsed (columnBit i) ∧ column.name = name := by
  rw [usedColumns, List.mem_filterMap]
  constructor
  · rintro ⟨entry, hentry, hname⟩
    obtain ⟨i, hi, hget⟩ := List.mem_mapIdx.mp hentry
    subst hget
    split at hname
    · next hused =>
        use i, columns[i], List.getElem?_eq_getElem hi, hused
        simpa using hname
    · cases hname
  · rintro ⟨i, column, hcolumn, hused, rfl⟩
    obtain ⟨hi, hget⟩ := List.getElem?_eq_some_iff.mp hcolumn
    use (i, column.name)
    constructor
    · rw [List.mem_mapIdx]
      exact ⟨i, hi, by rw [hget]⟩
    · rw [if_pos hused]

theorem prepare_isColumnUsed (q : Query) (useCache : Bool) (s : State) (name : String) :
    (prepare q useCache s).2.isColumnUsed name =
      (usedColumns s.content.columns q).contains name := by
  simp [prepare, xBestIndex, xFilter, QueryContext.isColumnUsed]

end Osquery.Tables
