import Osquery.Core.Rows

/-!
# Virtual tables

SQLite drives a table through callbacks. When the table is created, its columns and
column aliases are copied into a content structure; a scan asks for an index with the
constraints and the used columns, filters with the values of the constraints, which
calls the generator of the table, and reads columns of the rows. Reading the column
of an alias gives the column the name and the type of the target.

## Implementation notes

SQLite and the generator are inputs. A scan is one index, one filter and the same
reads on every row; a mask is what SQLite documents for `colUsed`. The response that
describes the columns is taken as parsed, and the names in it are compared as they
are. The conversions of numerals are a parameter; warnings, costs apart from their sum
and table aliases, which are views, are left out. Reading a missing value inserts the
empty text, so a row is read as if it had it.
-/

namespace Osquery.Tables

open Core.Rows

inductive ColumnType
  | unknown
  | text
  | integer
  | bigint
  | unsignedBigint
  | double
  | blob
  deriving DecidableEq

/-- The flags of a column. -/
structure ColumnOptions where
  index : Bool := false
  required : Bool := false
  additional : Bool := false
  optimized : Bool := false
  hidden : Bool := false
  deriving DecidableEq

structure Column where
  name : String
  type : ColumnType
  options : ColumnOptions
  deriving DecidableEq

def EQUALS : ℕ := 2
def GREATER_THAN : ℕ := 4
def LESS_THAN_OR_EQUALS : ℕ := 8
def LESS_THAN : ℕ := 16
def GREATER_THAN_OR_EQUALS : ℕ := 32

structure Constraint where
  op : ℕ
  expr : String
  deriving DecidableEq

structure ConstraintList where
  affinity : ColumnType := .text
  constraints : List Constraint := []

/-- What a generator is told about a query. -/
structure QueryContext where
  constraints : Std.ExtTreeMap String ConstraintList
  colsUsed : Option (List String)
  useCache : Bool

def QueryContext.isColumnUsed (context : QueryContext) (colName : String) : Bool :=
  match context.colsUsed with
  | none => true
  | some colsUsed => colsUsed.contains colName

/-- The constraints that a context has for a column. -/
def QueryContext.constraintsOn (context : QueryContext) (colName : String) : List Constraint :=
  (context.constraints.getD colName {}).constraints

structure VirtualTableContent where
  columns : List Column
  aliases : Std.ExtTreeMap String ℕ
  constraints : Std.ExtTreeMap ℕ (List (String × Constraint))
  colsUsed : Std.ExtTreeMap ℕ (List String)

/-! ### Creating a table -/

/-- An entry of the response of a table plugin that describes its columns. -/
inductive Detail
  | column (name : String) (type : ColumnType) (options : ColumnOptions)
  | columnAlias (name target : String)

structure TablePlugin where
  columns : List Column
  columnAliases : List (String × List String)

def TablePlugin.routeInfo (plugin : TablePlugin) : List Detail :=
  (plugin.columns.map fun column => .column column.name column.type column.options) ++
    plugin.columnAliases.flatMap fun target =>
      target.2.map fun name => .columnAlias name target.1

def addDetail (content : VirtualTableContent) : Detail → VirtualTableContent
  | .column name type options =>
      { content with columns := content.columns ++ [⟨name, type, options⟩] }
  | .columnAlias name target =>
      let columns := content.columns ++ [⟨name, .unknown, { hidden := true }⟩]
      let target_index := (columns.findIdx? fun column => column.name == target).getD 0
      { content with columns := columns, aliases := content.aliases.insert name target_index }

def xCreate (response : List Detail) : VirtualTableContent :=
  response.foldl addDetail ⟨[], ∅, ∅, ∅⟩

/-! ### Reading a column -/

/-- The conversions of a value that is no text. -/
structure Conversions where
  Double : Type
  tryToLong : String → Option ℤ
  tryToLongLong : String → Option ℤ
  strtod : String → Option Double

/-- A value that is handed to SQLite. -/
inductive SqlValue (conv : Conversions)
  | null
  | text (value : String)
  | int (n : ℤ)
  | double (x : conv.Double)

/-- The value of a column of a type; an `int` keeps the low 32 bits. -/
def sqlValue (conv : Conversions) (type : ColumnType) (value : String) : SqlValue conv :=
  match type with
  | .text | .blob => .text value
  | .integer => (conv.tryToLong value).elim .null fun n => .int (Int.bmod n (2 ^ 32))
  | .bigint | .unsignedBigint => (conv.tryToLongLong value).elim .null .int
  | .double => (conv.strtod value).elim .null .double
  | .unknown => .null

/-- The column as it is read: an alias takes over the name and the type of its target. -/
def resolve (content : VirtualTableContent) (column : Column) : Column :=
  match content.aliases[column.name]? with
  | none => column
  | some target_index =>
      match content.columns[target_index]? with
      | none => column
      | some target => { column with name := target.name, type := target.type }

/-- A column outside the table is an error. -/
def xColumn (conv : Conversions) (content : VirtualTableContent) (row : Row) (col : ℕ) :
    VirtualTableContent × Option (SqlValue conv) :=
  match content.columns[col]? with
  | none => (content, none)
  | some column =>
      let column := resolve content column
      ({ content with columns := content.columns.set col column },
        some (sqlValue conv column.type (row.getD column.name "")))

/-! ### Choosing an index -/

def sensibleComparison (type : ColumnType) (op : ℕ) : Bool :=
  !(type == .text && (op == GREATER_THAN || op == GREATER_THAN_OR_EQUALS || op == LESS_THAN ||
    op == LESS_THAN_OR_EQUALS))

/-- A constraint of a query, with the text of the value that it compares with. -/
structure ConstraintInfo where
  iColumn : ℤ
  op : ℕ
  usable : Bool
  argument : Option String

/-- A scan of the table as SQLite plans it. -/
structure Query where
  constraints : List ConstraintInfo
  used : List ℕ
  reads : List ℕ

/-- The bit that stands for a column. -/
def columnBit (i : ℕ) : ℕ := if i < 63 then i else 63

/-- The mask of the used columns. -/
def Query.colUsed (q : Query) (bit : ℕ) : Bool := (q.used.map columnBit).contains bit

/-- What `xBestIndex` found so far. -/
structure Plan where
  constraints : List (String × Constraint) := []
  argvIndex : List (Option ℕ) := []
  cost : ℕ := 1
  required_satisfied : Bool := false
  index_used : Bool := false

def columnAt (columns : List Column) (i : ℤ) : Option Column :=
  if 0 ≤ i then columns[i.toNat]? else none

def Plan.reject (plan : Plan) : Plan :=
  { plan with cost := plan.cost + 10, argvIndex := plan.argvIndex ++ [none] }

def Plan.evaluate (columns : List Column) (plan : Plan) (info : ConstraintInfo) : Plan :=
  if info.usable = false then plan.reject
  else
    match columnAt columns info.iColumn with
    | none => plan.reject
    | some column =>
        if sensibleComparison column.type info.op = false then plan.reject
        else
          { plan with
            constraints := plan.constraints ++ [(column.name, ⟨info.op, ""⟩)]
            argvIndex := plan.argvIndex ++ [some (plan.constraints.length + 1)]
            required_satisfied := plan.required_satisfied || column.options.required
            index_used := plan.index_used || column.options.required || column.options.index ||
              column.options.additional }

/-- A required column without a constraint and a table without a used index cost more. -/
def Plan.estimatedCost (columns : List Column) (plan : Plan) : ℕ :=
  plan.cost +
    (if columns.any (fun column => column.options.required && !plan.required_satisfied) then
      10000000000 else 0) + (if plan.index_used then 0 else 200)

/-- The names of the columns whose bit is set. -/
def usedColumns (columns : List Column) (q : Query) : List String :=
  (columns.mapIdx fun i column => (i, column.name)).filterMap fun entry =>
    if q.colUsed (columnBit entry.1) then some entry.2 else none

/-- The constraints and the used columns are kept under a new number. -/
def xBestIndex (content : VirtualTableContent) (kConstraintIndexID : ℕ) (q : Query) :
    VirtualTableContent × Plan :=
  let plan := q.constraints.foldl (Plan.evaluate content.columns) {}
  ({ content with
      constraints := content.constraints.insert kConstraintIndexID plan.constraints
      colsUsed := content.colsUsed.insert kConstraintIndexID (usedColumns content.columns q) },
    plan)

/-- The arguments that SQLite passes for the constraints with an `argvIndex`. -/
def argv (q : Query) (plan : Plan) : List (Option String) :=
  (q.constraints.zip plan.argvIndex).filterMap fun entry =>
    entry.2.map fun _ => entry.1.argument

/-! ### Filtering -/

def addAffinity (constraints : Std.ExtTreeMap String ConstraintList) (column : Column) :
    Std.ExtTreeMap String ConstraintList :=
  constraints.insert column.name
    { constraints.getD column.name {} with affinity := column.type }

/-- A constraint whose argument is missing or empty is skipped. -/
def addArgument (constraints : Std.ExtTreeMap String ConstraintList)
    (entry : (String × Constraint) × Option String) : Std.ExtTreeMap String ConstraintList :=
  match entry.2 with
  | none => constraints
  | some expr =>
      if cstr expr = "" then constraints
      else
        let list := constraints.getD entry.1.1 {}
        constraints.insert entry.1.1
          { list with constraints := list.constraints ++ [⟨entry.1.2.op, cstr expr⟩] }

/-- The context that the generator is called with. -/
def xFilter (content : VirtualTableContent) (idxNum : ℕ) (argv : List (Option String))
    (useCache : Bool) : QueryContext :=
  { constraints :=
      ((content.constraints.getD idxNum []).zip argv).foldl addArgument
        (content.columns.foldl addAffinity ∅)
    colsUsed := some (content.colsUsed.getD idxNum [])
    useCache := useCache }

/-! ### Scans -/

structure State where
  content : VirtualTableContent
  kConstraintIndexID : ℕ

/-- What the table is asked for, before any row is read. -/
def prepare (q : Query) (useCache : Bool) (s : State) : State × QueryContext :=
  let (content, plan) := xBestIndex s.content s.kConstraintIndexID q
  (⟨content, s.kConstraintIndexID + 1⟩,
    xFilter content s.kConstraintIndexID (argv q plan) useCache)

section Reads

variable (conv : Conversions)

def readRow (row : Row) : List ℕ → VirtualTableContent →
    VirtualTableContent × List (Option (SqlValue conv))
  | [], content => (content, [])
  | col :: cols, content =>
      let (content, value) := xColumn conv content row col
      let (content, values) := readRow row cols content
      (content, value :: values)

def readRows (cols : List ℕ) : QueryData → VirtualTableContent →
    VirtualTableContent × List (List (Option (SqlValue conv)))
  | [], content => (content, [])
  | row :: rows, content =>
      let (content, values) := readRow conv row cols content
      let (content, results) := readRows cols rows content
      (content, values :: results)

/-- A scan with the rows that a generator returns for its context. -/
def scan (generate : QueryContext → QueryData) (q : Query) (useCache : Bool) (s : State) :
    State × List (List (Option (SqlValue conv))) :=
  let (s, context) := prepare q useCache s
  let (content, results) := readRows conv q.reads (generate context) s.content
  ({ s with content := content }, results)

end Reads

end Osquery.Tables
