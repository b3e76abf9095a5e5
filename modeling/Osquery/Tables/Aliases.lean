import Osquery.Tables.VirtualTable

/-!
# Column aliases

The columns of a table are real columns followed by the hidden columns of the aliases.
Reading a hidden column gives it the name and the type of its target, so what matters
of the earlier queries is which hidden columns they read. The values of an alias are
those of its target at any time. The constraints and the used columns that a generator
is told about are those of the target only after the alias was read, so they depend on
the earlier queries as soon as a query touches an alias.

## Implementation notes

SQLite refuses a table with two columns of one name, so names are distinct. A layout
lists the aliases with the positions of their targets.
-/

namespace Osquery.Tables

open Core.Rows

/-- The aliases in the order of the response, with the names of their targets. -/
def TablePlugin.aliasPairs (plugin : TablePlugin) : List (String × String) :=
  plugin.columnAliases.flatMap fun target => target.2.map fun name => (name, target.1)

/-- The names are distinct, and every alias has a real column for its target. -/
structure TablePlugin.WellFormed (plugin : TablePlugin) : Prop where
  distinct : (plugin.columns.map Column.name ++ plugin.aliasPairs.map Prod.fst).Nodup
  targets : ∀ pair ∈ plugin.aliasPairs, ∃ column ∈ plugin.columns, column.name = pair.2

/-- The real columns of a table, and its aliases with the positions of their targets. -/
structure Layout where
  real : List Column
  hidden : List (String × Fin real.length)
  distinct : (real.map Column.name ++ hidden.map Prod.fst).Nodup

def TablePlugin.targetIndex (plugin : TablePlugin) (target : String)
    (h : ∃ column ∈ plugin.columns, column.name = target) : Fin plugin.columns.length :=
  ⟨plugin.columns.findIdx fun column => column.name == target, by
    apply List.findIdx_lt_length_of_exists
    obtain ⟨column, hcolumn, hname⟩ := h
    exact ⟨column, hcolumn, by simp [hname]⟩⟩

def TablePlugin.layout (plugin : TablePlugin) (h : plugin.WellFormed) : Layout where
  real := plugin.columns
  hidden := plugin.aliasPairs.pmap (fun pair hpair => (pair.1, plugin.targetIndex pair.2 hpair))
    h.targets
  distinct := by
    rw [List.map_pmap]
    simpa [List.pmap_eq_map] using h.distinct

namespace Layout

variable (L : Layout)

/-- The column of an alias: its own at first, and after a read that of its target. -/
def aliasColumn (a : String × Fin L.real.length) (isRead : Bool) : Column :=
  if isRead then ⟨(L.real.get a.2).name, (L.real.get a.2).type, { hidden := true }⟩
  else ⟨a.1, .unknown, { hidden := true }⟩

/-- The alias with a column index. -/
def aliasAt (i : ℕ) : Option (String × Fin L.real.length) :=
  if L.real.length ≤ i then L.hidden[i - L.real.length]? else none

/-- The columns after some of them were read. -/
def columns (reads : List ℕ) : List Column :=
  L.real ++ L.hidden.mapIdx fun j a => L.aliasColumn a (reads.contains (L.real.length + j))

def aliases : Std.ExtTreeMap String ℕ :=
  L.hidden.foldl (fun aliases a => aliases.insert a.1 a.2.val) ∅

/-- The content of the table after some columns were read. -/
def content (reads : List ℕ) (constraints : Std.ExtTreeMap ℕ (List (String × Constraint)))
    (colsUsed : Std.ExtTreeMap ℕ (List String)) : VirtualTableContent :=
  ⟨L.columns reads, L.aliases, constraints, colsUsed⟩

/-- The column that a query has instead of the alias. -/
def targetOf (i : ℕ) : ℕ :=
  match L.aliasAt i with
  | some a => a.2
  | none => i

/-! ### Columns -/

theorem getElem?_columns (reads : List ℕ) (i : ℕ) :
    (L.columns reads)[i]? =
      match L.aliasAt i with
      | some a => some (L.aliasColumn a (reads.contains i))
      | none => L.real[i]? := by
  rw [columns, aliasAt]
  by_cases h : L.real.length ≤ i
  · rw [if_pos h, List.getElem?_append_right h, List.getElem?_mapIdx, Nat.add_sub_of_le h]
    cases L.hidden[i - L.real.length]? with
    | none => simp [List.getElem?_eq_none h]
    | some a => rfl
  · rw [if_neg h, List.getElem?_append_left (Nat.lt_of_not_le h)]

theorem aliasAt_eq_none {i : ℕ} (h : i < L.real.length) : L.aliasAt i = none := by
  rw [aliasAt, if_neg (Nat.not_le_of_lt h)]

theorem mem_hidden_of_aliasAt {i : ℕ} {a : String × Fin L.real.length} (h : L.aliasAt i = some a) :
    a ∈ L.hidden := by
  rw [aliasAt] at h
  split at h
  · exact List.mem_of_getElem? h
  · cases h

/-- No alias has the name of a real column. -/
theorem name_ne {a : String × Fin L.real.length} {c : Column} (ha : a ∈ L.hidden)
    (hc : c ∈ L.real) : c.name ≠ a.1 :=
  (List.nodup_append.mp L.distinct).2.2 _ (List.mem_map_of_mem hc) _ (List.mem_map_of_mem ha)

theorem get_ne_alias {a b : String × Fin L.real.length} (hb : b ∈ L.hidden) :
    (L.real.get a.2).name ≠ b.1 := L.name_ne hb (List.get_mem _ _)

theorem aliases_eq_ofList :
    L.aliases = Std.ExtTreeMap.ofList (L.hidden.map fun a => (a.1, a.2.val)) := by
  rw [Std.ExtTreeMap.ofList_eq_foldl, List.foldl_map]
  rfl

theorem aliases_of_mem {a : String × Fin L.real.length} (ha : a ∈ L.hidden) :
    L.aliases[a.1]? = some a.2.val := by
  have hnodup := (List.nodup_append.mp L.distinct).2.1
  rw [aliases_eq_ofList]
  apply Std.ExtTreeMap.getElem?_ofList_of_mem (k := a.1) (by simp)
  · rw [List.pairwise_map]
    apply (List.pairwise_map.mp hnodup).imp
    intro b c hne
    simpa using hne
  · exact List.mem_map.mpr ⟨a, ha, rfl⟩

theorem aliases_of_real {c : Column} (hc : c ∈ L.real) : L.aliases[c.name]? = none := by
  rw [aliases_eq_ofList]
  apply Std.ExtTreeMap.getElem?_ofList_of_contains_eq_false
  rw [List.contains_eq_mem, decide_eq_false_iff_not, List.map_map]
  intro hmem
  obtain ⟨a, ha, hname⟩ := List.mem_map.mp hmem
  exact L.name_ne ha hc hname.symm

/-! ### The content of a new table -/

theorem columns_nil :
    L.columns [] = L.real ++ L.hidden.map fun a => ⟨a.1, .unknown, { hidden := true }⟩ := by
  rw [columns]
  congr 1
  apply List.ext_getElem?
  intro j
  simp [aliasColumn]

end Layout

theorem foldl_addDetail_columns (columns : List Column) (content : VirtualTableContent) :
    (columns.map fun column => Detail.column column.name column.type column.options).foldl
      addDetail content = { content with columns := content.columns ++ columns } := by
  induction columns generalizing content with
  | nil => simp
  | cons column columns ih =>
      rw [List.map_cons, List.foldl_cons, ih]
      simp [addDetail]

/-- The first column with the name of a target is a real one. -/
theorem findIdx?_target (plugin : TablePlugin) {target : String}
    (h : ∃ column ∈ plugin.columns, column.name = target) (others : List Column) :
    ((plugin.columns ++ others).findIdx? fun column => column.name == target) =
      some (plugin.targetIndex target h).val := by
  have hlt := (plugin.targetIndex target h).isLt
  have hfirst : (plugin.columns.findIdx? fun column => column.name == target) =
      some (plugin.targetIndex target h).val :=
    List.findIdx?_eq_some_iff_findIdx_eq.mpr ⟨hlt, rfl⟩
  rw [List.findIdx?_append, hfirst]
  rfl

theorem foldl_addDetail_aliases (plugin : TablePlugin) (pairs : List (String × String))
    (h : ∀ pair ∈ pairs, ∃ column ∈ plugin.columns, column.name = pair.2) (others : List Column)
    (content : VirtualTableContent) (hcontent : content.columns = plugin.columns ++ others) :
    (pairs.map fun pair => Detail.columnAlias pair.1 pair.2).foldl addDetail content =
      { content with
        columns := content.columns ++ pairs.map fun pair => ⟨pair.1, .unknown, { hidden := true }⟩
        aliases := (pairs.pmap (fun pair hpair => (pair.1, plugin.targetIndex pair.2 hpair))
          h).foldl (fun aliases a => aliases.insert a.1 a.2.val) content.aliases } := by
  induction pairs generalizing content others with
  | nil => simp
  | cons pair pairs ih =>
      have htarget := h pair List.mem_cons_self
      rw [List.map_cons, List.foldl_cons]
      rw [ih (fun p hp => h p (List.mem_cons_of_mem _ hp))
        (others ++ [⟨pair.1, .unknown, { hidden := true }⟩])]
      · simp only [addDetail, hcontent, List.append_assoc, findIdx?_target plugin htarget,
          Option.getD_some, List.pmap_cons, List.foldl_cons, List.map_cons, List.cons_append,
          List.nil_append]
      · simp [addDetail, hcontent]

/-- A new table has the layout of its plugin. -/
theorem xCreate_routeInfo (plugin : TablePlugin) (h : plugin.WellFormed) :
    xCreate plugin.routeInfo = (plugin.layout h).content [] ∅ ∅ := by
  have hroute : plugin.routeInfo =
      (plugin.columns.map fun column => .column column.name column.type column.options) ++
        plugin.aliasPairs.map fun pair => .columnAlias pair.1 pair.2 := by
    simp [TablePlugin.routeInfo, TablePlugin.aliasPairs, List.map_flatMap, Function.comp_def]
  rw [xCreate, hroute, List.foldl_append, foldl_addDetail_columns,
    foldl_addDetail_aliases plugin plugin.aliasPairs h.targets [] _ (by simp)]
  rw [Layout.content, Layout.columns_nil]
  simp [TablePlugin.layout, Layout.aliases, List.map_pmap, List.pmap_eq_map]

/-! ### Reading -/

namespace Layout

variable (L : Layout) (conv : Conversions)
variable (reads : List ℕ) (constraints : Std.ExtTreeMap ℕ (List (String × Constraint)))
variable (colsUsed : Std.ExtTreeMap ℕ (List String))

/-- The value of a column is that of its target. -/
def value (row : Row) (col : ℕ) : Option (SqlValue conv) :=
  (L.real[L.targetOf col]?).map fun column =>
    sqlValue conv column.type (row.getD column.name "")

theorem targetOf_alias {i : ℕ} {a : String × Fin L.real.length} (h : L.aliasAt i = some a) :
    L.targetOf i = a.2 := by
  rw [targetOf, h]

theorem targetOf_real {i : ℕ} (h : L.aliasAt i = none) : L.targetOf i = i := by
  rw [targetOf, h]

theorem aliasAt_targetOf (i : ℕ) : L.aliasAt (L.targetOf i) = none := by
  cases h : L.aliasAt i with
  | none => rw [L.targetOf_real h, h]
  | some a =>
      rw [L.targetOf_alias h]
      exact L.aliasAt_eq_none a.2.isLt

theorem targetOf_targetOf (i : ℕ) : L.targetOf (L.targetOf i) = L.targetOf i :=
  L.targetOf_real (L.aliasAt_targetOf i)

theorem value_targetOf (row : Row) (col : ℕ) :
    L.value conv row (L.targetOf col) = L.value conv row col := by
  rw [value, targetOf_targetOf, value]

theorem getElem?_columns_real {i : ℕ} (h : L.aliasAt i = none) :
    (L.columns reads)[i]? = L.real[i]? := by
  rw [getElem?_columns, h]

theorem getElem?_columns_alias {i : ℕ} {a : String × Fin L.real.length}
    (h : L.aliasAt i = some a) :
    (L.columns reads)[i]? = some (L.aliasColumn a (reads.contains i)) := by
  rw [getElem?_columns, h]

theorem getElem?_columns_target (a : String × Fin L.real.length) :
    (L.columns reads)[a.2.val]? = some (L.real.get a.2) := by
  rw [L.getElem?_columns_real reads (L.aliasAt_eq_none a.2.isLt)]
  simp

/-- Reading a real column changes nothing. -/
theorem columns_cons_real {col : ℕ} (h : L.aliasAt col = none) :
    L.columns (col :: reads) = L.columns reads := by
  apply List.ext_getElem?
  intro i
  cases hi : L.aliasAt i with
  | none => rw [L.getElem?_columns_real _ hi, L.getElem?_columns_real _ hi]
  | some a =>
      have hne : i ≠ col := by
        intro heq
        rw [heq, h] at hi
        cases hi
      rw [L.getElem?_columns_alias _ hi, L.getElem?_columns_alias _ hi, List.contains_cons,
        beq_eq_false_iff_ne.mpr hne, Bool.false_or]

/-- Reading an alias puts its target in its place. -/
theorem columns_cons_alias {col : ℕ} {a : String × Fin L.real.length}
    (h : L.aliasAt col = some a) :
    L.columns (col :: reads) = (L.columns reads).set col (L.aliasColumn a true) := by
  apply List.ext_getElem?
  intro i
  rw [List.getElem?_set]
  by_cases heq : col = i
  · subst heq
    have hlt : col < (L.columns reads).length := by
      apply (List.getElem?_eq_some_iff.mp (L.getElem?_columns_alias reads h)).1
    rw [L.getElem?_columns_alias _ h, if_pos rfl, if_pos hlt]
    simp
  · rw [if_neg heq]
    cases hi : L.aliasAt i with
    | none => rw [L.getElem?_columns_real _ hi, L.getElem?_columns_real _ hi]
    | some b =>
        rw [L.getElem?_columns_alias _ hi, L.getElem?_columns_alias _ hi, List.contains_cons,
          beq_eq_false_iff_ne.mpr (Ne.symm heq), Bool.false_or]

theorem resolve_real {column : Column} (h : column ∈ L.real) :
    resolve (L.content reads constraints colsUsed) column = column := by
  rw [resolve, content, L.aliases_of_real h]

theorem resolve_alias {a : String × Fin L.real.length} (h : a ∈ L.hidden) (isRead : Bool) :
    resolve (L.content reads constraints colsUsed) (L.aliasColumn a isRead) =
      L.aliasColumn a true := by
  cases isRead with
  | false =>
      simp only [resolve, content, aliasColumn, Bool.false_eq_true, if_false, if_true,
        L.aliases_of_mem h, L.getElem?_columns_target]
  | true =>
      have hnone : L.aliases[(L.real.get a.2).name]? = none :=
        L.aliases_of_real (List.get_mem _ _)
      simp only [resolve, content, aliasColumn, if_true, hnone]

/-- A read gives the value of the target, and remembers that the column was read. -/
theorem xColumn_content (row : Row) (col : ℕ) :
    xColumn conv (L.content reads constraints colsUsed) row col =
      (L.content (col :: reads) constraints colsUsed, L.value conv row col) := by
  cases h : L.aliasAt col with
  | some a =>
      have hcolumn := L.getElem?_columns_alias reads h
      have hvalue : L.value conv row col =
          some (sqlValue conv (L.real.get a.2).type (row.getD (L.real.get a.2).name "")) := by
        rw [value, L.targetOf_alias h]
        simp
      have hresolve := L.resolve_alias reads constraints colsUsed (L.mem_hidden_of_aliasAt h)
        (reads.contains col)
      rw [hvalue]
      simp only [xColumn, content, hcolumn, L.columns_cons_alias reads h] at hresolve ⊢
      rw [hresolve]
      rfl
  | none =>
      have hcolumn := L.getElem?_columns_real reads h
      have hvalue : L.value conv row col = (L.real[col]?).map fun column =>
          sqlValue conv column.type (row.getD column.name "") := by
        rw [value, L.targetOf_real h]
      rw [hvalue]
      cases hreal : L.real[col]? with
      | none =>
          simp only [xColumn, content, hcolumn, hreal, L.columns_cons_real reads h]
          rfl
      | some column =>
          have hresolve := L.resolve_real reads constraints colsUsed
            (List.mem_of_getElem? hreal)
          have hset : (L.columns reads).set col column = L.columns reads := by
            obtain ⟨hlt, hget⟩ := List.getElem?_eq_some_iff.mp (hcolumn.trans hreal)
            rw [← hget, List.set_getElem_self]
          simp only [xColumn, content, hcolumn, hreal, L.columns_cons_real reads h]
            at hresolve ⊢
          rw [hresolve, hset]
          rfl

theorem readRow_content (row : Row) (cols : List ℕ) :
    readRow conv row cols (L.content reads constraints colsUsed) =
      (L.content (cols.reverse ++ reads) constraints colsUsed,
        cols.map (L.value conv row)) := by
  induction cols generalizing reads with
  | nil => rfl
  | cons col cols ih =>
      simp only [readRow, xColumn_content, ih]
      simp

theorem readRows_content (cols : List ℕ) (rows : QueryData) :
    ∃ reads',
      readRows conv cols rows (L.content reads constraints colsUsed) =
        (L.content reads' constraints colsUsed,
          rows.map fun row => cols.map (L.value conv row)) := by
  induction rows generalizing reads with
  | nil => exact ⟨reads, rfl⟩
  | cons row rows ih =>
      obtain ⟨reads', hreads⟩ := ih (cols.reverse ++ reads)
      use reads'
      simp only [readRows, readRow_content, hreads]
      rfl

end Layout

end Osquery.Tables
