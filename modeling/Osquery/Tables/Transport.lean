import Mathlib.Data.Finset.Basic
import Osquery.Core.Conversions
import Osquery.Core.Members
import Osquery.Tables.VirtualTable

/-!
# Contexts of extension tables

The table of an extension is asked by a request, and the context of the query travels in it as
JSON text: the columns of the constraint map with their constraints and the name of their type,
and the used columns when they are known. The table builds a context from the text again.

## Implementation notes

An operator is an `unsigned char`. The reader of a request assumes members that the writer adds;
where a member or its type is missing it throws or fails an assertion of the JSON library, and
the result is `none`. The used columns are a set without an order.
-/

namespace Osquery.Tables

open Core.Rows Core.Conversions Foundation.Changes Foundation.JsonText

/-! ### Names of types -/

def kColumnTypeNames : List (ColumnType × String) :=
  [(.unknown, "UNKNOWN"), (.text, "TEXT"), (.integer, "INTEGER"), (.bigint, "BIGINT"),
    (.unsignedBigint, "UNSIGNED BIGINT"), (.double, "DOUBLE"), (.blob, "BLOB")]

/-- The name of a type. -/
def columnTypeName (type : ColumnType) : String :=
  ((kColumnTypeNames.find? fun col => col.1 = type).map Prod.snd).getD ""

/-- The other `columnTypeName`: the type with a name. -/
def columnTypeOfName (type : String) : ColumnType :=
  ((kColumnTypeNames.find? fun col => col.2 == type).map Prod.fst).getD .unknown

theorem columnTypeOfName_columnTypeName (type : ColumnType) :
    columnTypeOfName (columnTypeName type) = type := by
  cases type <;> decide

theorem columnTypeName_no_nul (type : ColumnType) : '\x00' ∉ (columnTypeName type).toList := by
  cases type <;> decide

/-! ### Values of the JSON library -/

def getString : Json → Option String
  | .str s => some (cstr s)
  | _ => none

def getArray : Json → Option (List Json)
  | .arr items => some items
  | _ => none

/-- `operator[]` with a name. -/
def memberOf (obj : Json) (name : String) : Option Json :=
  match obj with
  | .obj members => findMember members name
  | _ => none

/-- `JSON::valueToSize`. -/
def valueToSize : Json → Option ℕ
  | .str s => some (tryToUnsigned (cstr s) 0).toNat
  | .int n => if 0 ≤ n ∧ n < 2 ^ 64 then some n.toNat else none
  | .real _ _ => none
  | _ => some 0

/-! ### A list of constraints -/

def serializeConstraint (constraint : Constraint) : Json :=
  .obj (addRef (add [] "op" (.int constraint.op)) "expr" constraint.expr)

def ConstraintList.serialize (list : ConstraintList) (obj : List (String × Json)) :
    List (String × Json) :=
  addRef (add obj "list" (.arr (list.constraints.map serializeConstraint))) "affinity"
    (columnTypeName list.affinity)

def deserializeConstraint (list : Json) : Option Constraint := do
  let op ← (memberOf list "op").bind valueToSize
  let expr ← (memberOf list "expr").bind getString
  return ⟨op % 2 ^ 8, expr⟩

def ConstraintList.deserialize (list : ConstraintList) (obj : Json) : Option ConstraintList :=
  match memberOf obj "list" with
  | some (.arr items) => do
      let constraints ← items.mapM deserializeConstraint
      let affinity_name := match memberOf obj "affinity" with
        | some (.str name) => cstr name
        | _ => "UNKNOWN"
      return ⟨columnTypeOfName affinity_name, list.constraints ++ constraints⟩
  | _ => some list

/-! ### A context -/

variable (json : JsonLibrary)

def serializeColumn (constraint : String × ConstraintList) : Json :=
  .obj (constraint.2.serialize (addRef [] "name" constraint.1))

/-- The members of the document that stands for a context. -/
def contextMembers (context : QueryContext) : List (String × Json) :=
  let members := add [] "constraints" (.arr (context.constraints.toList.map serializeColumn))
  match context.colsUsed with
  | none => members
  | some colsUsed => add members "colsUsed" (.arr (colsUsed.map .str))

def setRequestFromContext (context : QueryContext) (request : Row) : Row :=
  request.insert "context" (toString json (.obj (contextMembers context)))

def readColsUsed (members : List (String × Json)) (context : QueryContext) :
    Option QueryContext :=
  match findMember members "colsUsed" with
  | none => some context
  | some v => do
      let names ← (← getArray v).mapM getString
      return { context with
        colsUsed := some (names.foldl (fun colsUsed columnName => colsUsed.insert columnName) []) }

/-- The list of a column is made if there is none. -/
def readColumn (context : QueryContext) (constraint : Json) : Option QueryContext := do
  let column_name ← (memberOf constraint "name").bind getString
  let list ← (context.constraints.getD column_name {}).deserialize constraint
  return { context with constraints := context.constraints.insert column_name list }

def setContextFromRequest (request : Row) (context : QueryContext) : Option QueryContext := do
  let text ← request["context"]?
  match json.parse (cstr text) with
  | some (.obj members) =>
      let context ← readColsUsed members context
      match findMember members "constraints" with
      | some (.arr items) => items.foldlM readColumn context
      | _ => some context
  | _ => none

/-! ### Reading back what was written -/

/-- What a `std::string` and a C string of it agree on. -/
def NoNul (s : String) : Prop := '\x00' ∉ s.toList

instance (s : String) : Decidable (NoNul s) := inferInstanceAs (Decidable (¬ _))

/-- A constraint with an operator of one byte and an expression without NUL. -/
def Constraint.Portable (c : Constraint) : Prop := c.op < 2 ^ 8 ∧ NoNul c.expr

instance (c : Constraint) : Decidable c.Portable := inferInstanceAs (Decidable (_ ∧ _))

/-- The contexts of queries whose names and expressions have no NUL. -/
structure QueryContext.Portable (context : QueryContext) : Prop where
  column : ∀ name ∈ context.constraints, NoNul name
  constraint : ∀ (name : String) (list : ConstraintList), context.constraints[name]? = some list →
    ∀ c ∈ list.constraints, c.Portable
  used : ∀ colsUsed ∈ context.colsUsed, ∀ name ∈ colsUsed, NoNul name

theorem getString_str {s : String} (h : NoNul s) : getString (.str s) = some s := by
  rw [getString, cstr_of_no_nul h]

/-- Items that are read back one by one are read back together. -/
theorem mapM_map_of_forall {α β : Type} {write : α → β} {read : β → Option α} {items : List α}
    (h : ∀ a ∈ items, read (write a) = some a) : (items.map write).mapM read = some items := by
  induction items with
  | nil => rfl
  | cons a items ih =>
      rw [List.map_cons, List.mapM_cons, h a List.mem_cons_self,
        ih fun b hb => h b (List.mem_cons_of_mem a hb)]
      rfl

theorem valueToSize_int {n : ℕ} (h : n < 2 ^ 64) : valueToSize (.int n) = some n := by
  rw [valueToSize, if_pos (by omega)]
  rfl

theorem deserializeConstraint_serializeConstraint {c : Constraint} (h : c.Portable) :
    deserializeConstraint (serializeConstraint c) = some c := by
  have hop : (memberOf (serializeConstraint c) "op").bind valueToSize = some c.op := by
    rw [serializeConstraint, memberOf, addRef_eq_add, findMember_add (distinct_nil.add _ _),
      findMember_add distinct_nil, if_neg (by decide), if_pos rfl, Option.bind_some]
    exact valueToSize_int (h.1.trans (by decide))
  have hexpr : (memberOf (serializeConstraint c) "expr").bind getString = some c.expr := by
    rw [serializeConstraint, memberOf, addRef_eq_add, findMember_add (distinct_nil.add _ _),
      if_pos rfl, Option.bind_some]
    exact getString_str h.2
  have hmod : c.op % 2 ^ 8 = c.op := Nat.mod_eq_of_lt h.1
  rw [deserializeConstraint, hop, hexpr]
  simp only [Option.bind_eq_bind, Option.bind_some, Option.pure_def, hmod]

/-- A list is read back from its members, whatever else the object has. -/
theorem deserialize_serialize {list : ConstraintList} {obj : List (String × Json)}
    (hobj : Distinct obj) (h : ∀ c ∈ list.constraints, c.Portable) :
    ({} : ConstraintList).deserialize (.obj (list.serialize obj)) = some list := by
  have hlist : memberOf (.obj (list.serialize obj)) "list" =
      some (.arr (list.constraints.map serializeConstraint)) := by
    rw [ConstraintList.serialize, memberOf, addRef_eq_add, findMember_add (hobj.add _ _),
      findMember_add hobj]
    simp
  have haffinity : memberOf (.obj (list.serialize obj)) "affinity" =
      some (.str (columnTypeName list.affinity)) := by
    rw [ConstraintList.serialize, memberOf, addRef_eq_add, findMember_add (hobj.add _ _)]
    simp
  have hconstraints : (list.constraints.map serializeConstraint).mapM deserializeConstraint =
      some list.constraints :=
    mapM_map_of_forall fun c hc => deserializeConstraint_serializeConstraint (h c hc)
  rw [ConstraintList.deserialize, hlist]
  simp only [hconstraints, haffinity, Option.bind_eq_bind, Option.bind_some,
    cstr_of_no_nul (columnTypeName_no_nul list.affinity), columnTypeOfName_columnTypeName,
    List.nil_append, Option.pure_def]

/-- A column that is not known yet is added with its list. -/
theorem readColumn_serializeColumn {context : QueryContext} {column : String × ConstraintList}
    (hnew : context.constraints[column.1]? = none) (hname : NoNul column.1)
    (h : ∀ c ∈ column.2.constraints, c.Portable) :
    readColumn context (serializeColumn column) =
      some { context with constraints := context.constraints.insert column.1 column.2 } := by
  have hobj : Distinct (addRef [] "name" column.1) := distinct_nil.add _ _
  have hmember : (memberOf (serializeColumn column) "name").bind getString = some column.1 := by
    rw [serializeColumn, memberOf, ConstraintList.serialize, addRef_eq_add,
      findMember_add (hobj.add _ _), findMember_add hobj, addRef_eq_add,
      findMember_add distinct_nil, if_neg (by decide), if_neg (by decide), if_pos rfl,
      Option.bind_some]
    exact getString_str hname
  have hlist : (context.constraints.getD column.1 {}).deserialize (serializeColumn column) =
      some column.2 := by
    rw [Std.ExtTreeMap.getD_eq_getD_getElem?, hnew]
    exact deserialize_serialize hobj h
  rw [readColumn, hmember]
  simp only [Option.bind_eq_bind, Option.bind_some, hlist, Option.pure_def]

theorem foldlM_readColumn {columns : List (String × ConstraintList)}
    (hdistinct : columns.Pairwise fun a b => a.1 ≠ b.1)
    (hcolumns : ∀ column ∈ columns, NoNul column.1 ∧ ∀ c ∈ column.2.constraints, c.Portable)
    {context : QueryContext} (hnew : ∀ column ∈ columns, context.constraints[column.1]? = none) :
    (columns.map serializeColumn).foldlM readColumn context =
      some { context with
        constraints := columns.foldl (fun m p => m.insert p.1 p.2) context.constraints } := by
  induction columns generalizing context with
  | nil => rfl
  | cons column columns ih =>
      rw [List.pairwise_cons] at hdistinct
      obtain ⟨hname, hconstraints⟩ := hcolumns column List.mem_cons_self
      rw [List.map_cons, List.foldlM_cons,
        readColumn_serializeColumn (hnew column List.mem_cons_self) hname hconstraints]
      simp only [Option.bind_eq_bind, Option.bind_some]
      rw [ih hdistinct.2 fun other hother => hcolumns other (List.mem_cons_of_mem column hother)]
      · rfl
      · intro other hother
        rw [Std.ExtTreeMap.getElem?_insert, if_neg]
        · exact hnew other (List.mem_cons_of_mem column hother)
        · intro heq
          exact hdistinct.1 other hother (Std.compare_eq_iff_eq.mp heq)

/-- Inserting names one after the other gives their set. -/
theorem toFinset_foldl_insert (names set : List String) :
    (names.foldl (fun colsUsed columnName => colsUsed.insert columnName) set).toFinset =
      names.toFinset ∪ set.toFinset := by
  induction names generalizing set with
  | nil => simp
  | cons name names ih =>
      rw [List.foldl_cons, ih]
      ext other
      simp only [Finset.mem_union, List.mem_toFinset, List.mem_insert_iff, List.mem_cons]
      tauto

theorem readColsUsed_contextMembers {context : QueryContext} (h : context.Portable)
    (start : QueryContext) (hstart : start.colsUsed = none) :
    ∃ colsUsed, readColsUsed (contextMembers context) start =
        some { start with colsUsed := colsUsed } ∧
      colsUsed.map List.toFinset = context.colsUsed.map List.toFinset := by
  have hmembers : Distinct (add [] "constraints"
      (.arr (context.constraints.toList.map serializeColumn))) := distinct_nil.add _ _
  rw [readColsUsed, contextMembers]
  cases hused : context.colsUsed with
  | none =>
      refine ⟨none, ?_, rfl⟩
      simp only [findMember_add distinct_nil]
      rw [if_neg (by decide), ← hstart]
      rfl
  | some colsUsed =>
      have hnames : (colsUsed.map Json.str).mapM getString = some colsUsed :=
        mapM_map_of_forall fun name hname => getString_str (h.used colsUsed hused name hname)
      simp only [findMember_add hmembers, if_true, getArray, Option.bind_eq_bind,
        Option.bind_some, hnames]
      refine ⟨_, rfl, ?_⟩
      rw [Option.map_some, toFinset_foldl_insert]
      simp

theorem findMember_constraints (context : QueryContext) :
    findMember (contextMembers context) "constraints" =
      some (.arr (context.constraints.toList.map serializeColumn)) := by
  rw [contextMembers]
  cases context.colsUsed with
  | none => simp [findMember_add distinct_nil]
  | some colsUsed => simp [findMember_add distinct_nil, findMember_add (distinct_nil.add _ _)]

/-- A context that nothing was read into. -/
def emptyContext : QueryContext := ⟨∅, none, false⟩

/-- The table of an extension is told the same constraints and the same used columns. -/
theorem setContextFromRequest_setRequestFromContext {context : QueryContext}
    (h : context.Portable) (request : Row) :
    ∃ restored, setContextFromRequest json (setRequestFromContext json context request)
        emptyContext = some restored ∧
      restored.constraints = context.constraints ∧
      restored.colsUsed.map List.toFinset = context.colsUsed.map List.toFinset := by
  obtain ⟨colsUsed, hused, hsame⟩ := readColsUsed_contextMembers h emptyContext rfl
  have hcolumns : (context.constraints.toList.map serializeColumn).foldlM readColumn
      { emptyContext with colsUsed := colsUsed } =
        some { emptyContext with colsUsed := colsUsed, constraints := context.constraints } := by
    rw [foldlM_readColumn (pairwise_ne_toList context.constraints)]
    · dsimp only [emptyContext]
      rw [foldl_insert_toList]
    · rintro ⟨name, list⟩ hmem
      have hget := Std.ExtTreeMap.mem_toList_iff_getElem?_eq_some.mp hmem
      refine ⟨h.column name ?_, h.constraint name list hget⟩
      rw [Std.ExtTreeMap.mem_iff_isSome_getElem?, hget]
      rfl
    · intro column _
      exact Std.ExtTreeMap.getElem?_empty
  refine ⟨{ emptyContext with colsUsed := colsUsed, constraints := context.constraints }, ?_, rfl,
    hsame⟩
  rw [setContextFromRequest, setRequestFromContext, Std.ExtTreeMap.getElem?_insert_self,
    toString_eq_write]
  simp only [Option.bind_eq_bind, Option.bind_some, parse_cstr_write, hused,
    findMember_constraints, hcolumns]

/-- A query for the shells among the processes with a range of numbers. -/
def shellsContext : QueryContext where
  constraints := ((∅ : Std.ExtTreeMap String ConstraintList).insert "name"
    ⟨.text, [⟨EQUALS, "zsh"⟩]⟩).insert "pid"
      ⟨.integer, [⟨GREATER_THAN, "5"⟩, ⟨LESS_THAN_OR_EQUALS, "99"⟩]⟩
  colsUsed := some ["pid", "name", "cmdline"]
  useCache := false

theorem shellsContext_portable : shellsContext.Portable where
  column := by
    intro name hname
    rw [shellsContext, Std.ExtTreeMap.mem_insert, Std.ExtTreeMap.mem_insert,
      Std.compare_eq_iff_eq, Std.compare_eq_iff_eq] at hname
    rcases hname with rfl | rfl | hname
    · decide
    · decide
    · exact absurd hname Std.ExtTreeMap.not_mem_empty
  constraint := by
    intro name list hget
    rw [shellsContext, Std.ExtTreeMap.getElem?_insert, Std.ExtTreeMap.getElem?_insert] at hget
    split at hget
    · obtain rfl := Option.some.inj hget
      decide
    · split at hget
      · obtain rfl := Option.some.inj hget
        decide
      · simp at hget
  used := by
    rintro colsUsed ⟨⟩
    decide

theorem setContextFromRequest_shells :
    shellsContext.Portable ∧
    ∃ restored, setContextFromRequest reference
        (setRequestFromContext reference shellsContext ∅) emptyContext = some restored ∧
      restored.constraints = shellsContext.constraints ∧
      restored.colsUsed.map List.toFinset = shellsContext.colsUsed.map List.toFinset :=
  ⟨shellsContext_portable, setContextFromRequest_setRequestFromContext reference
    shellsContext_portable ∅⟩

end Osquery.Tables
