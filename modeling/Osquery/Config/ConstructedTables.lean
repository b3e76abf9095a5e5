import Osquery.Config.Sources
import Osquery.Core.Status
import Osquery.Database.Plugin

/-!
# Constructed tables

The parser of `auto_table_construction` makes a table out of every member that gives a path and
a query, and records its settings in the database. Settings that are recorded already are
skipped, other ones replace the table. Tables that are recorded and not in the document are
removed, with their records. A table that is registered without a record belongs to the core or
to an extension and is left alone. What is registered under a name after a run of updates
depends on the entries for that name alone.

## Implementation notes

The host, the tables that extensions serve, which writes the database takes and which virtual
tables the engine creates are inputs of every update. Deletions from the database succeed. The
settings of a table are its name and its parts in one text, so that two tables of the same
settings are not told apart. The engine is the map of the columns that it shows, and is opened
when it is first used; what it answers is not read by the parser, and is left out, as are log
lines and the rows of the tables.
-/

namespace Osquery.Config

open Foundation.JsonText Foundation.Separated Core.BackingStore Core.Rows

def kParserKey : String := "auto_table_construction"

def kDatabaseKeyPrefix : String := "atc."

structure ATCPlugin where
  path_ : String
  tc_columns_ : List String
  sqlite_query_ : String
deriving DecidableEq

/-- The local plugins of the table registry. -/
inductive TableItem
  | core (columns : List String)
  | atc (plugin : ATCPlugin)
deriving DecidableEq

def TableItem.columns : TableItem → List String
  | .core columns => columns
  | .atc plugin => plugin.tc_columns_

/-- What an update depends on besides the state of the parser. -/
structure ATCEnvironment where
  host : Host
  /-- The tables of extensions, with their columns. -/
  external : Std.ExtTreeMap String (List String)
  /-- The database takes the settings of a table. -/
  writes : String → Bool
  /-- The engine creates a virtual table with these columns. -/
  creates : String → List String → Bool

/-- The database, the table registry, the engine if it is open, and the parser's document. -/
structure ATCState where
  db : Core.BackingStore.Database
  tables : Std.ExtTreeMap String TableItem
  engine : Option (Std.ExtTreeMap String (List String))
  data_ : Std.ExtTreeMap String Json

/-- The text that stands for a table in the database. -/
def tableSettings (table_name : String) (plugin : ATCPlugin) : String :=
  let columns_value := plugin.tc_columns_.foldl (fun value column => value ++ (column ++ ",")) ""
  table_name ++ plugin.sqlite_query_ ++ columns_value ++ plugin.path_

/-- The table that a member of the document names, unless it is misconfigured or for another
platform. -/
def constructedTable? (host : Host) (ac_table : String × Json) : Option (String × ATCPlugin) :=
  let query := (stringMember? "query" ac_table.2).getD ""
  let path := (stringMember? "path" ac_table.2).getD ""
  let platform := (stringMember? "platform" ac_table.2).getD ""
  if query = "" ∨ path = "" then none
  else if !checkPlatform host platform then none
  else
    let columns := ((member? "columns" ac_table.2).map getArray).getD []
    some (cstr ac_table.1, ⟨path, columns.map getString, query⟩)

namespace ATCState

variable (e : ATCEnvironment) (st : ATCState)

def record (table : String) : Option String :=
  lookup st.db kPersistentSettings (kDatabaseKeyPrefix ++ table)

/-! ### The engine -/

/-- The columns that the registry gives for a table. -/
def columns? (table : String) : Option (List String) :=
  (st.tables[table]?.map TableItem.columns).or e.external[table]?

/-- A virtual table is created unless there is one of its name. -/
def attachTable (shown : Std.ExtTreeMap String (List String)) (table : String) :
    Std.ExtTreeMap String (List String) :=
  match st.columns? e table with
  | none => shown
  | some columns =>
      if !shown.contains table && e.creates table columns then shown.insert table columns
      else shown

/-- An engine that is opened gets every table of the registry. -/
def getConnection : Std.ExtTreeMap String (List String) :=
  st.engine.getD ((st.tables.keys ++ e.external.keys).foldl (st.attachTable e) ∅)

/-- The actions of the SQL plugin that concern one table. -/
def sqlCall (action table : String) : ATCState :=
  if action = "attach" then
    { st with engine := some (st.attachTable e (st.getConnection e) table) }
  else if action = "detach" then
    { st with engine := some ((st.getConnection e).erase table) }
  else st

/-! ### The parser -/

/-- One table to remove, and the tables that were no constructed ones. -/
def removeATCTable (s : ATCState × List String) (table : String) : ATCState × List String :=
  let known := s.1.tables.contains table || e.external.contains table
  let recorded := (s.1.record table).isSome
  let st :=
    if known && recorded then
      ({ s.1 with tables := s.1.tables.erase table } : ATCState).sqlCall e "detatch" table
    else s.1
  ({ st with db := Ephemeral.remove st.db kPersistentSettings (kDatabaseKeyPrefix ++ table) },
    if known && !recorded then s.2 ++ [table] else s.2)

def removeATCTables (detach_tables : List String) : Core.Status × ATCState :=
  let s := detach_tables.foldl (removeATCTable e) (st, [])
  (if s.2 = [] then ⟨0, "OK"⟩
    else ⟨1, "Attempted to remove non ATC tables: " ++ join s.2 ", "⟩, s.1)

def registeredATCTables : List String :=
  (Ephemeral.scan st.db kPersistentSettings kDatabaseKeyPrefix 0).map fun table =>
    String.ofList (table.toList.drop kDatabaseKeyPrefix.length)

def setUp : ATCState :=
  let keys := Ephemeral.scan st.db kPersistentSettings kDatabaseKeyPrefix 0
  { st with db := keys.foldl (fun db key => Ephemeral.remove db kPersistentSettings key) st.db }

/-- The table is written to the database, added to the registry and attached. -/
def registerTable (table_name : String) (plugin : ATCPlugin) : ATCState :=
  if !e.writes table_name then st
  else if st.tables.contains table_name then
    { st with
      db := Ephemeral.remove
        (Ephemeral.setValue st.db kPersistentSettings (kDatabaseKeyPrefix ++ table_name)
          (tableSettings table_name plugin))
        kPersistentSettings (kDatabaseKeyPrefix ++ table_name) }
  else
    ({ st with
      db := Ephemeral.setValue st.db kPersistentSettings (kDatabaseKeyPrefix ++ table_name)
        (tableSettings table_name plugin)
      tables := st.tables.insert table_name (.atc plugin) } : ATCState).sqlCall e "attach"
      table_name

/-- One member of the document, and the tables that are left to remove. -/
def updateTable (s : ATCState × List String) (ac_table : String × Json) :
    ATCState × List String :=
  match constructedTable? e.host ac_table with
  | none => s
  | some (table_name, plugin) =>
      let registered := s.2.filter fun table => table ≠ table_name
      if tableSettings table_name plugin = (s.1.record table_name).getD "" then (s.1, registered)
      else
        let removed := s.1.removeATCTables e [table_name]
        if !removed.1.ok then (removed.2, registered)
        else (removed.2.registerTable e table_name plugin, registered)

/-- The update of the parser, with its status code. -/
def update (config : Option Json) : ℤ × ATCState :=
  match config with
  | none => (1, st)
  | some cv =>
      let st := { st with data_ := st.data_.insert kParserKey cv }
      let ac_tables := (st.data_[kParserKey]?.map getObject).getD []
      let s := ac_tables.foldl (updateTable e) (st, st.registeredATCTables)
      (0, (s.1.removeATCTables e s.2).2)

end ATCState

/-- The tables of a document that have a name. -/
def tablesNamed (host : Host) (name : String) (ac_tables : List (String × Json)) :
    List ATCPlugin :=
  (ac_tables.filterMap (constructedTable? host)).filterMap fun table =>
    if table.1 = name then some table.2 else none

theorem tablesNamed_cons (host : Host) (name : String) (ac_table : String × Json)
    (ac_tables : List (String × Json)) :
    tablesNamed host name (ac_table :: ac_tables) =
      match constructedTable? host ac_table with
      | none => tablesNamed host name ac_tables
      | some (table_name, plugin) =>
          if table_name = name then plugin :: tablesNamed host name ac_tables
          else tablesNamed host name ac_tables := by
  rw [tablesNamed]
  cases htable : constructedTable? host ac_table with
  | none =>
      rw [List.filterMap_cons_none htable]
      rfl
  | some table =>
      rw [List.filterMap_cons_some htable]
      by_cases hname : table.1 = name
      · simp only [List.filterMap_cons, if_pos hname]
        rfl
      · simp only [List.filterMap_cons, if_neg hname]
        rfl

/-! ### The entry of one name -/

/-- What the registry and the database keep under a name of their own. -/
inductive TableEntry
  | unknown
  | core (columns : List String)
  | constructed (plugin : ATCPlugin)
deriving DecidableEq

namespace TableEntry

variable (e : ATCEnvironment) (name : String)

/-- The settings that are recorded for an entry. -/
def settings : TableEntry → Option String
  | constructed plugin => some (tableSettings name plugin)
  | _ => none

/-- The local plugin of an entry. -/
def item : TableEntry → Option TableItem
  | unknown => none
  | core columns => some (.core columns)
  | constructed plugin => some (.atc plugin)

/-- A table takes the name if the database takes its settings. -/
def construct (plugin : ATCPlugin) : TableEntry :=
  if e.writes name then constructed plugin else unknown

/-- One table of the document: the names of the core and of extensions are not taken, and a
table of the same settings stays. -/
def offer : TableEntry → ATCPlugin → TableEntry
  | core columns, _ => core columns
  | unknown, plugin => if e.external.contains name then unknown else construct e name plugin
  | constructed old, plugin =>
      if tableSettings name plugin = tableSettings name old then constructed old
      else construct e name plugin

/-- The parser may remove what is registered under the name. -/
def removable : TableEntry → Bool
  | unknown => !e.external.contains name
  | core _ => false
  | constructed _ => true

/-- A constructed table that the document does not name is removed. -/
def withdraw : TableEntry → TableEntry
  | constructed _ => unknown
  | entry => entry

/-- The tables of the document with this name, in order. -/
def update (entry : TableEntry) (plugins : List ATCPlugin) : TableEntry :=
  if plugins = [] then entry.withdraw else plugins.foldl (offer e name) entry

end TableEntry

namespace ATCState

variable (e : ATCEnvironment) (st : ATCState) (name : String) (entry : TableEntry)

/-- The registry and the database keep an entry under a name. -/
structure Keeps : Prop where
  item : st.tables[name]? = entry.item
  record : st.record name = entry.settings name

theorem tables_sqlCall (action table : String) : (st.sqlCall e action table).tables = st.tables := by
  unfold sqlCall
  split
  · rfl
  · split <;> rfl

theorem record_sqlCall (action table : String) :
    (st.sqlCall e action table).record = st.record := by
  unfold sqlCall
  split
  · rfl
  · split <;> rfl

/-! ### Removing tables -/

variable {e st name entry}

theorem record_remove (db : Core.BackingStore.Database) (table : String) :
    ({ st with
      db := Ephemeral.remove db kPersistentSettings (kDatabaseKeyPrefix ++ table) } :
      ATCState).record name =
      if table = name then none
      else lookup db kPersistentSettings (kDatabaseKeyPrefix ++ name) := by
  rw [record, lookup_remove]
  simp only [true_and, String.append_right_inj]

theorem record_removeATCTable (s : ATCState × List String) (table : String) :
    (removeATCTable e s table).1.record name =
      if table = name then none else s.1.record name := by
  rw [removeATCTable, record_remove]
  split
  · rfl
  · split
    · exact congrFun (record_sqlCall ..) name
    · rfl

theorem tables_removeATCTable (s : ATCState × List String) (table : String) :
    (removeATCTable e s table).1.tables[name]? =
      if table = name ∧ (s.1.record table).isSome then none else s.1.tables[name]? := by
  have hknown : s.1.tables[table]? ≠ none → s.1.tables.contains table = true := by
    intro hsome
    rw [Std.ExtTreeMap.contains_eq_isSome_getElem?, Option.isSome_iff_ne_none]
    exact hsome
  change (ite _ _ _ : ATCState).tables[name]? = _
  by_cases hname : table = name
  · subst hname
    cases hrecord : (s.1.record table).isSome with
    | false => simp
    | true =>
        simp only [Bool.and_true, and_self, if_true]
        split
        · rw [tables_sqlCall, Std.ExtTreeMap.getElem?_erase_self]
        · next hunknown =>
            by_contra hsome
            exact hunknown (by rw [hknown hsome, Bool.true_or])
  · rw [if_neg (show ¬(table = name ∧ _) from fun hboth => hname hboth.1)]
    split
    · rw [tables_sqlCall, Std.ExtTreeMap.getElem?_erase, if_neg]
      rw [compare_eq_iff_eq]
      exact hname
    · rfl

/-- One table is removed if it is a constructed one. -/
theorem Keeps.removeATCTable {s : ATCState × List String} (h : Keeps s.1 name entry)
    (table : String) :
    Keeps (removeATCTable e s table).1 name (if table = name then entry.withdraw else entry) := by
  refine ⟨?_, ?_⟩
  · rw [tables_removeATCTable, h.item]
    by_cases hname : table = name
    · subst hname
      rw [h.record, if_pos rfl]
      cases entry <;> simp [TableEntry.settings, TableEntry.item, TableEntry.withdraw]
    · rw [if_neg fun hboth => hname hboth.1, if_neg hname]
  · rw [record_removeATCTable, h.record]
    by_cases hname : table = name
    · rw [if_pos hname, if_pos hname]
      cases entry <;> rfl
    · rw [if_neg hname, if_neg hname]

theorem Keeps.foldl_removeATCTable {s : ATCState × List String} (h : Keeps s.1 name entry)
    (detach_tables : List String) :
    Keeps (detach_tables.foldl (ATCState.removeATCTable e) s).1 name
      (if name ∈ detach_tables then entry.withdraw else entry) := by
  induction detach_tables generalizing s entry with
  | nil => exact h
  | cons table detach_tables ih =>
      have hrest := ih (h.removeATCTable (e := e) table)
      by_cases hname : table = name
      · have hagain : entry.withdraw.withdraw = entry.withdraw := by cases entry <;> rfl
        rw [if_pos hname, hagain, ite_self] at hrest
        rw [if_pos (List.mem_cons.mpr (.inl hname.symm))]
        exact hrest
      · rw [if_neg hname] at hrest
        simp only [List.mem_cons, Ne.symm hname, false_or]
        exact hrest

/-- The removal of one table fails for tables that are no constructed ones. -/
theorem Keeps.ok_removeATCTables (h : Keeps st name entry) :
    (st.removeATCTables e [name]).1.ok = entry.removable e name := by
  have hok : ∀ failed : List String, (if failed = [] then (⟨0, "OK"⟩ : Core.Status)
      else ⟨1, "Attempted to remove non ATC tables: " ++ join failed ", "⟩).ok =
        decide (failed = []) := by
    intro failed
    by_cases hfailed : failed = []
    · rw [if_pos hfailed, decide_eq_true hfailed]
      rfl
    · rw [if_neg hfailed, decide_eq_false hfailed]
      rfl
  have hcontains : st.tables.contains name = entry.item.isSome := by
    rw [Std.ExtTreeMap.contains_eq_isSome_getElem?, h.item]
  rw [removeATCTables, hok, List.foldl_cons, List.foldl_nil, ATCState.removeATCTable, hcontains,
    h.record]
  cases entry with
  | unknown =>
      have hitem : TableEntry.unknown.item.isSome = false := rfl
      have hsettings : (TableEntry.unknown.settings name).isSome = false := rfl
      rw [hitem, hsettings, TableEntry.removable]
      cases e.external.contains name <;> rfl
  | core columns => simp [TableEntry.item, TableEntry.settings, TableEntry.removable]
  | constructed plugin => simp [TableEntry.item, TableEntry.settings, TableEntry.removable]

/-! ### Registering tables -/

theorem lookup_settings (db : Core.BackingStore.Database) (table value : String) :
    lookup (Ephemeral.setValue db kPersistentSettings (kDatabaseKeyPrefix ++ table) value)
        kPersistentSettings (kDatabaseKeyPrefix ++ name) =
      if table = name then some value
      else lookup db kPersistentSettings (kDatabaseKeyPrefix ++ name) := by
  rw [lookup_setValue]
  simp only [true_and, String.append_right_inj]

/-- A name that is free is taken if the database takes the settings. -/
theorem Keeps.registerTable (h : Keeps st name .unknown) (plugin : ATCPlugin) :
    Keeps (st.registerTable e name plugin) name (TableEntry.construct e name plugin) := by
  have hfree : st.tables.contains name = false := by
    rw [Std.ExtTreeMap.contains_eq_isSome_getElem?, h.item]
    rfl
  rw [ATCState.registerTable, TableEntry.construct]
  cases hwrites : e.writes name with
  | false => exact h
  | true =>
      simp only [hfree, Bool.not_true, Bool.false_eq_true, if_false, if_true]
      refine ⟨?_, ?_⟩
      · rw [tables_sqlCall, Std.ExtTreeMap.getElem?_insert_self]
        rfl
      · refine (congrFun (record_sqlCall ..) name).trans ?_
        exact (lookup_settings ..).trans (if_pos rfl)

/-- The other names are left alone. -/
theorem Keeps.registerTable_of_ne (h : Keeps st name entry) {table_name : String}
    (hname : table_name ≠ name) (plugin : ATCPlugin) :
    Keeps (st.registerTable e table_name plugin) name entry := by
  rw [ATCState.registerTable]
  split
  · exact h
  · split
    · refine ⟨h.item, ?_⟩
      rw [record_remove, if_neg hname, lookup_settings, if_neg hname]
      exact h.record
    · refine ⟨?_, ?_⟩
      · rw [tables_sqlCall, Std.ExtTreeMap.getElem?_insert, if_neg, h.item]
        rw [compare_eq_iff_eq]
        exact hname
      · refine (congrFun (record_sqlCall ..) name).trans ?_
        exact ((lookup_settings ..).trans (if_neg hname)).trans h.record

/-- A table of the document has a query, so that its settings are no empty text. -/
theorem tableSettings_ne_empty {host : Host} {ac_table : String × Json} {table_name : String}
    {plugin : ATCPlugin} (h : constructedTable? host ac_table = some (table_name, plugin)) :
    tableSettings table_name plugin ≠ "" := by
  simp only [constructedTable?] at h
  split at h
  · cases h
  · next hconfigured =>
      split at h
      · cases h
      · cases h
        rw [not_or] at hconfigured
        simp only [tableSettings, ne_eq, String.append_eq_empty_iff, not_and]
        exact fun _ => hconfigured.2

/-- One member of the document, for the name of a table. -/
theorem Keeps.updateTable {s : ATCState × List String} (h : Keeps s.1 name entry)
    (ac_table : String × Json) :
    Keeps (updateTable e s ac_table).1 name
      (match constructedTable? e.host ac_table with
      | none => entry
      | some (table_name, plugin) =>
          if table_name = name then entry.offer e name plugin else entry) := by
  rw [ATCState.updateTable]
  cases htable : constructedTable? e.host ac_table with
  | none => exact h
  | some table =>
      obtain ⟨table_name, plugin⟩ := table
      have hsettings := tableSettings_ne_empty htable
      have hremoved := h.foldl_removeATCTable (e := e) (s := (s.1, [])) [table_name]
      simp only [List.mem_singleton] at hremoved
      by_cases hname : table_name = name
      · subst hname
        have hok := h.ok_removeATCTables (e := e)
        simp only [if_true] at hremoved ⊢
        cases entry with
        | unknown =>
            simp only [h.record, TableEntry.settings, Option.getD_none, hsettings, if_false, hok,
              TableEntry.removable, Bool.not_not, TableEntry.offer]
            split
            · exact hremoved
            · exact hremoved.registerTable plugin
        | core columns =>
            simp only [h.record, TableEntry.settings, Option.getD_none, hsettings, if_false, hok,
              TableEntry.removable, Bool.not_false, if_true]
            exact hremoved
        | constructed old =>
            simp only [h.record, TableEntry.settings, Option.getD_some, hok, TableEntry.removable,
              Bool.not_true, Bool.false_eq_true, if_false, TableEntry.offer]
            split
            · exact h
            · exact hremoved.registerTable plugin
      · rw [if_neg (Ne.symm hname)] at hremoved
        simp only [if_neg hname]
        split
        · exact h
        · split
          · exact hremoved
          · exact hremoved.registerTable_of_ne hname plugin

/-! ### Updates -/

theorem Keeps.foldl_updateTable {s : ATCState × List String} (h : Keeps s.1 name entry)
    (ac_tables : List (String × Json)) :
    Keeps (ac_tables.foldl (ATCState.updateTable e) s).1 name
      ((tablesNamed e.host name ac_tables).foldl (TableEntry.offer e name) entry) := by
  induction ac_tables generalizing s entry with
  | nil => exact h
  | cons ac_table ac_tables ih =>
      have hrest := ih (h.updateTable (e := e) ac_table)
      rw [List.foldl_cons, tablesNamed_cons]
      cases htable : constructedTable? e.host ac_table with
      | none =>
          rw [htable] at hrest
          exact hrest
      | some table =>
          rw [htable] at hrest
          by_cases hname : table.1 = name
          · simp only [if_pos hname] at hrest ⊢
            exact hrest
          · simp only [if_neg hname] at hrest ⊢
            exact hrest

theorem updateTable_snd (s : ATCState × List String) (ac_table : String × Json) :
    (updateTable e s ac_table).2 =
      match constructedTable? e.host ac_table with
      | none => s.2
      | some (table_name, _) => s.2.filter fun table => table ≠ table_name := by
  rw [updateTable]
  cases constructedTable? e.host ac_table with
  | none => rfl
  | some table =>
      simp only
      split
      · rfl
      · split <;> rfl

/-- A document leaves the tables to remove that it does not name. -/
theorem mem_foldl_updateTable (s : ATCState × List String) (ac_tables : List (String × Json)) :
    name ∈ (ac_tables.foldl (updateTable e) s).2 ↔
      name ∈ s.2 ∧ tablesNamed e.host name ac_tables = [] := by
  induction ac_tables generalizing s with
  | nil => exact (and_iff_left rfl).symm
  | cons ac_table ac_tables ih =>
      rw [List.foldl_cons, ih, updateTable_snd, tablesNamed_cons]
      cases constructedTable? e.host ac_table with
      | none => exact Iff.rfl
      | some table =>
          simp only [List.mem_filter, decide_eq_true_eq]
          by_cases hname : table.1 = name
          · simp [hname]
          · simp [hname, Ne.symm hname]

theorem mem_registeredATCTables : name ∈ st.registeredATCTables ↔ (st.record name).isSome :=
  mem_map_drop_scan

/-- An update leaves under a name what the tables of the document with that name leave. -/
theorem Keeps.update (h : Keeps st name entry) (cv : Json) :
    Keeps (st.update e (some cv)).2 name
      (entry.update e name (tablesNamed e.host name (getObject cv))) := by
  have hstart : Keeps ({ st with data_ := st.data_.insert kParserKey cv } : ATCState) name entry :=
    ⟨h.item, h.record⟩
  have hfold := Keeps.foldl_updateTable (e := e) (s := (_, st.registeredATCTables)) hstart
    (getObject cv)
  have hleft : name ∈ _ ↔ _ := mem_foldl_updateTable (e := e)
    ({ st with data_ := st.data_.insert kParserKey cv }, st.registeredATCTables) (getObject cv)
  rw [mem_registeredATCTables, h.record] at hleft
  have hresult := Keeps.foldl_removeATCTable (e := e) (s := (_, [])) hfold
    ((getObject cv).foldl (ATCState.updateTable e)
      ({ st with data_ := st.data_.insert kParserKey cv }, st.registeredATCTables)).2
  have hentry : (if name ∈ ((getObject cv).foldl (ATCState.updateTable e)
        ({ st with data_ := st.data_.insert kParserKey cv }, st.registeredATCTables)).2
      then ((tablesNamed e.host name (getObject cv)).foldl
        (TableEntry.offer e name) entry).withdraw
      else (tablesNamed e.host name (getObject cv)).foldl (TableEntry.offer e name) entry) =
      entry.update e name (tablesNamed e.host name (getObject cv)) := by
    rw [TableEntry.update]
    by_cases hnone : tablesNamed e.host name (getObject cv) = []
    · rw [if_pos hnone, hnone, List.foldl_nil]
      cases entry with
      | unknown => exact ite_self _
      | core columns => exact ite_self _
      | constructed plugin => exact if_pos (hleft.mpr ⟨rfl, hnone⟩)
    · rw [if_neg hnone, if_neg fun hmem => hnone (hleft.mp hmem).2]
  rw [hentry] at hresult
  simp only [ATCState.update, Std.ExtTreeMap.getElem?_insert_self, Option.map_some,
    Option.getD_some]
  exact hresult

/-! ### Runs -/

/-- A new process has the tables of its core, and no engine is open. -/
def restart (core_tables : Std.ExtTreeMap String (List String)) (st : ATCState) : ATCState :=
  ({ st with
    tables := core_tables.map fun _ columns => .core columns
    engine := none
    data_ := ∅ } : ATCState).setUp

/-- A set-up leaves no records. -/
theorem record_setUp : st.setUp.record name = none := by
  rw [record, setUp, lookup_foldl_remove]
  split
  · rfl
  · next hkept =>
      by_contra hsome
      refine hkept ⟨rfl, mem_scan_zero.mpr ⟨Option.isSome_iff_ne_none.mpr hsome, ?_⟩⟩
      rw [String.toList_append]
      exact List.prefix_append _ _

end ATCState

/-- What happens to the parser and to the engine. -/
inductive ATCAction
  | restart (core_tables : Std.ExtTreeMap String (List String))
  | update (e : ATCEnvironment) (config : Option Json)
  | query (e : ATCEnvironment)
  | resetPrimary

def ATCState.step (st : ATCState) : ATCAction → ATCState
  | .restart core_tables => st.restart core_tables
  | .update e config => (st.update e config).2
  | .query e => { st with engine := some (st.getConnection e) }
  | .resetPrimary => { st with engine := none }

/-- The action leaves an open engine open. -/
def ATCAction.LeavesOpen : ATCAction → Prop
  | .update _ _ => True
  | .query _ => True
  | _ => False

/-- The entry of a name in a new process. -/
def TableEntry.start (name : String) (core_tables : Std.ExtTreeMap String (List String)) :
    TableEntry :=
  core_tables[name]?.elim .unknown .core

def TableEntry.step (name : String) (entry : TableEntry) : ATCAction → TableEntry
  | .restart core_tables => .start name core_tables
  | .update e (some cv) => entry.update e name (tablesNamed e.host name (getObject cv))
  | _ => entry

namespace ATCState

variable {st : ATCState} {name : String} {entry : TableEntry}

theorem keeps_restart (core_tables : Std.ExtTreeMap String (List String)) :
    Keeps (st.restart core_tables) name (.start name core_tables) := by
  refine ⟨?_, ?_⟩
  · change (core_tables.map fun _ columns => TableItem.core columns)[name]? = _
    rw [Std.ExtTreeMap.getElem?_map, TableEntry.start]
    cases core_tables[name]? <;> rfl
  · rw [restart, record_setUp, TableEntry.start]
    cases core_tables[name]? <;> rfl

theorem Keeps.step (h : Keeps st name entry) (action : ATCAction) :
    Keeps (st.step action) name (entry.step name action) := by
  cases action with
  | restart core_tables => exact keeps_restart core_tables
  | update e config =>
      cases config with
      | none => exact h
      | some cv => exact h.update cv
  | query e => exact ⟨h.item, h.record⟩
  | resetPrimary => exact ⟨h.item, h.record⟩

/-- After any run the registry and the database keep under every name what the documents of
the run leave of that name. -/
theorem keeps_foldl (st : ATCState) (core_tables : Std.ExtTreeMap String (List String))
    (actions : List ATCAction) (name : String) :
    Keeps (actions.foldl ATCState.step (st.restart core_tables)) name
      (actions.foldl (TableEntry.step name) (.start name core_tables)) := by
  have hrun : ∀ (st : ATCState) (entry : TableEntry), Keeps st name entry →
      Keeps (actions.foldl ATCState.step st) name
        (actions.foldl (TableEntry.step name) entry) := by
    induction actions with
    | nil => exact fun st entry h => h
    | cons action actions ih => exact fun st entry h => ih _ _ (h.step action)
  exact hrun _ _ (keeps_restart core_tables)

/-! ### The tables of the engine -/

/-- The open engine shows a table with these columns. -/
def Shows (st : ATCState) (name : String) (columns : List String) : Prop :=
  ∃ shown, st.engine = some shown ∧ shown[name]? = some columns

variable {e : ATCEnvironment} {columns : List String}

theorem getElem?_attachTable {shown : Std.ExtTreeMap String (List String)}
    (h : shown[name]? = some columns) (table : String) :
    (st.attachTable e shown table)[name]? = some columns := by
  rw [attachTable]
  cases st.columns? e table with
  | none => exact h
  | some new =>
      simp only
      split
      · next hnew =>
          rw [Std.ExtTreeMap.getElem?_insert, if_neg, h]
          rw [compare_eq_iff_eq]
          rintro rfl
          rw [Std.ExtTreeMap.contains_eq_isSome_getElem?, h] at hnew
          cases hnew
      · exact h

theorem Shows.sqlCall (h : Shows st name columns) {action : String} (haction : action ≠ "detach")
    (table : String) : Shows (st.sqlCall e action table) name columns := by
  obtain ⟨shown, hengine, hshown⟩ := h
  unfold ATCState.sqlCall
  split
  · refine ⟨_, rfl, ?_⟩
    rw [getConnection, hengine]
    exact getElem?_attachTable hshown table
  · exact ⟨shown, hengine, hshown⟩

/-- The action that should detach a table is unknown to the engine. -/
theorem Shows.removeATCTable {s : ATCState × List String} (h : Shows s.1 name columns)
    (table : String) : Shows (ATCState.removeATCTable e s table).1 name columns := by
  have hdetatch : "detatch" ≠ "detach" := by decide
  rw [ATCState.removeATCTable]
  change Shows { (ite _ _ _ : ATCState) with db := _ } name columns
  split
  · have herased : Shows { s.1 with tables := s.1.tables.erase table } name columns := h
    have hcalled : Shows (ATCState.sqlCall e _ "detatch" table) name columns :=
      herased.sqlCall hdetatch table
    exact hcalled
  · exact h

theorem Shows.foldl_removeATCTable {s : ATCState × List String} (h : Shows s.1 name columns)
    (detach_tables : List String) :
    Shows (detach_tables.foldl (ATCState.removeATCTable e) s).1 name columns := by
  induction detach_tables generalizing s with
  | nil => exact h
  | cons table detach_tables ih => exact ih (h.removeATCTable table)

theorem Shows.registerTable (h : Shows st name columns) (table_name : String)
    (plugin : ATCPlugin) : Shows (st.registerTable e table_name plugin) name columns := by
  have hattach : "attach" ≠ "detach" := by decide
  rw [ATCState.registerTable]
  split
  · exact h
  · split
    · exact h
    · refine Shows.sqlCall ?_ hattach table_name
      exact h

theorem Shows.updateTable {s : ATCState × List String} (h : Shows s.1 name columns)
    (ac_table : String × Json) : Shows (ATCState.updateTable e s ac_table).1 name columns := by
  rw [ATCState.updateTable]
  cases constructedTable? e.host ac_table with
  | none => exact h
  | some table =>
      have hremoved := h.foldl_removeATCTable (e := e) (s := (s.1, [])) [table.1]
      simp only
      split
      · exact h
      · split
        · exact hremoved
        · exact hremoved.registerTable table.1 table.2

theorem Shows.update (h : Shows st name columns) (config : Option Json) :
    Shows (st.update e config).2 name columns := by
  cases config with
  | none => exact h
  | some cv =>
      have hfold : ∀ (ac_tables : List (String × Json)) (s : ATCState × List String),
          Shows s.1 name columns →
          Shows (ac_tables.foldl (ATCState.updateTable e) s).1 name columns := by
        intro ac_tables
        induction ac_tables with
        | nil => exact fun s h => h
        | cons ac_table ac_tables ih => exact fun s h => ih _ (h.updateTable ac_table)
      rw [ATCState.update, ATCState.removeATCTables]
      apply Shows.foldl_removeATCTable
      apply hfold
      exact h

/-- An open engine shows a table with the columns that it had when it was attached, whatever
table the documents put in its place, until the engine is closed. -/
theorem shows_foldl (h : Shows st name columns) {actions : List ATCAction}
    (hopen : ∀ action ∈ actions, action.LeavesOpen) :
    Shows (actions.foldl ATCState.step st) name columns := by
  induction actions generalizing st with
  | nil => exact h
  | cons action actions ih =>
      refine ih ?_ fun other hother => hopen other (List.mem_cons_of_mem _ hother)
      have hhead := hopen action (List.mem_cons_self ..)
      cases action with
      | restart core_tables => cases hhead
      | update e config => exact h.update config
      | query e =>
          obtain ⟨shown, hengine, hshown⟩ := h
          refine ⟨shown, ?_, hshown⟩
          exact congrArg some (congrArg (Option.getD · _) hengine)
      | resetPrimary => cases hhead

end ATCState

/-! ### A sample run -/

def sampleSurroundings : ATCEnvironment where
  host := ⟨0, true, true, "linux", "", fun _ _ => 0⟩
  external := ∅
  writes := fun _ => true
  creates := fun _ _ => true

/-- A document with one table of one column. -/
def tableDocument (name column : String) : Json :=
  .obj [(name, .obj [("query", .str "select"), ("path", .str "/p"),
    ("columns", .arr [.str column])])]

/-- A new process in which one table was constructed. -/
def constructedOnce : ATCState :=
  [ATCAction.restart ∅, .update sampleSurroundings (some (tableDocument "t" "a"))].foldl
    ATCState.step ⟨∅, ∅, none, ∅⟩

theorem shows_replaced : ATCState.Shows
    ([ATCAction.update sampleSurroundings (some (tableDocument "t" "b"))].foldl ATCState.step
      constructedOnce) "t" ["a"] := by
  have hshown : constructedOnce.engine.bind (·["t"]?) = some ["a"] := by decide +kernel
  refine ATCState.shows_foldl (Option.bind_eq_some_iff.mp hshown) ?_
  intro action haction
  obtain rfl := List.mem_singleton.mp haction
  trivial

end Osquery.Config
