import Osquery.Tables.Aliases
import Osquery.Tables.Requests

/-!
# Aliases and the history of a table

The values of an alias are those of its target after any queries. What a generator is
told is not: before an alias was read, its constraints and its mark as used are filed
under its own name, and after a read under the name of its target. So a query is the
same as the query with the targets, and the same after all queries, exactly when it
gives no constraint on an alias a value and has no bit of an alias in its mask.

## Implementation notes

Two contexts are compared by the constraints on every name, the affinities of the real
columns and the used columns. A constraint without a value is not told to a generator.
-/

namespace Osquery.Tables

open Core.Rows

/-- An earlier scan of a table. -/
structure Earlier where
  generate : QueryContext → QueryData
  query : Query
  useCache : Bool

/-- The table after some scans. -/
def after (conv : Conversions) (plugin : TablePlugin) (history : List Earlier) : State :=
  history.foldl (fun s earlier => (scan conv earlier.generate earlier.query earlier.useCache s).1)
    ⟨xCreate plugin.routeInfo, 0⟩

structure SameContext (plugin : TablePlugin) (context context' : QueryContext) : Prop where
  constraints : ∀ name, context.constraintsOn name = context'.constraintsOn name
  affinities : ∀ column ∈ plugin.columns,
    (context.constraints.getD column.name {}).affinity =
      (context'.constraints.getD column.name {}).affinity
  used : ∀ name, context.isColumnUsed name = context'.isColumnUsed name

/-- Two scans ask the same of a generator, and give the same values of what it returns. -/
structure SameAnswer (conv : Conversions) (plugin : TablePlugin) (q q' : Query) (s s' : State) :
    Prop where
  context : ∀ useCache,
    SameContext plugin (prepare q useCache s).2 (prepare q' useCache s').2
  values : ∀ useCache rows,
    (readRows conv q.reads rows (prepare q useCache s).1.content).2 =
      (readRows conv q'.reads rows (prepare q' useCache s').1.content).2

namespace Layout

variable (L : Layout)

def withTarget (info : ConstraintInfo) : ConstraintInfo :=
  if 0 ≤ info.iColumn then { info with iColumn := L.targetOf info.iColumn.toNat } else info

/-- The query written with the target columns. -/
def withTargets (q : Query) : Query :=
  ⟨q.constraints.map L.withTarget, q.used.map L.targetOf, q.reads.map L.targetOf⟩

/-- A usable constraint on an alias has a value. -/
def ConstrainsAlias (q : Query) : Prop :=
  ∃ info ∈ q.constraints, info.usable = true ∧ 0 ≤ info.iColumn ∧
    (L.aliasAt info.iColumn.toNat).isSome ∧ ∃ expr, info.argument = some expr ∧ cstr expr ≠ ""

/-- The bit of an alias is set in the mask. -/
def UsesAlias (q : Query) : Prop := ∃ i, (L.aliasAt i).isSome ∧ q.colUsed (columnBit i) = true

end Layout

/-- After any scans a query is the same as with the targets and the same as after others. -/
structure Transparent (conv : Conversions) (plugin : TablePlugin) (h : plugin.WellFormed)
    (q : Query) : Prop where
  targets : ∀ history,
    SameAnswer conv plugin q ((plugin.layout h).withTargets q) (after conv plugin history)
      (after conv plugin history)
  histories : ∀ history history',
    SameAnswer conv plugin q q (after conv plugin history) (after conv plugin history')

/-! ### Constraints -/

namespace Layout

variable (L : Layout) (reads : List ℕ)

theorem columnAt_columns {i : ℤ} (h : 0 ≤ i → L.aliasAt i.toNat = none) :
    columnAt (L.columns reads) i = columnAt L.real i := by
  rw [columnAt, columnAt]
  by_cases hi : 0 ≤ i
  · rw [if_pos hi, if_pos hi, L.getElem?_columns_real reads (h hi)]
  · rw [if_neg hi, if_neg hi]

theorem pushed_columns {info : ConstraintInfo}
    (h : 0 ≤ info.iColumn → L.aliasAt info.iColumn.toNat = none) :
    pushed (L.columns reads) info = pushed L.real info := by
  rw [pushed, L.columnAt_columns reads h, pushed]

theorem withTarget_of_none {info : ConstraintInfo}
    (h : 0 ≤ info.iColumn → L.aliasAt info.iColumn.toNat = none) : L.withTarget info = info := by
  rw [withTarget]
  by_cases hi : 0 ≤ info.iColumn
  · rw [if_pos hi, L.targetOf_real (h hi), Int.toNat_of_nonneg hi]
  · rw [if_neg hi]

theorem aliasAt_withTarget (info : ConstraintInfo) (h : 0 ≤ (L.withTarget info).iColumn) :
    L.aliasAt (L.withTarget info).iColumn.toNat = none := by
  rw [withTarget] at h ⊢
  by_cases hi : 0 ≤ info.iColumn
  · rw [if_pos hi]
    exact L.aliasAt_targetOf _
  · rw [if_neg hi] at h
    exact absurd h hi

/-- A constraint that is not usable or has no value asks nothing. -/
theorem asked_eq_none (columns : List Column) (name : String) {info : ConstraintInfo}
    (h : ¬(info.usable = true ∧ ∃ expr, info.argument = some expr ∧ cstr expr ≠ "")) :
    ((pushed columns info).bind fun entry => asked name (entry, info.argument)) = none := by
  by_cases husable : info.usable = true
  · have hvalue : ∀ entry, asked name (entry, info.argument) = none := by
      intro entry
      cases hargument : info.argument with
      | none => rfl
      | some expr =>
          have hempty : cstr expr = "" := by
            by_contra hne
            exact h ⟨husable, expr, hargument, hne⟩
          simp [asked, hempty]
    simp [hvalue]
  · simp [pushed, husable]

theorem requested_columns {q : Query} (h : ¬L.ConstrainsAlias q) (name : String) :
    requested (L.columns reads) q name = requested L.real q name := by
  apply List.filterMap_congr
  intro info hinfo
  by_cases hvalue : info.usable = true ∧ ∃ expr, info.argument = some expr ∧ cstr expr ≠ ""
  · rw [L.pushed_columns reads]
    intro hi
    cases ha : L.aliasAt info.iColumn.toNat with
    | none => rfl
    | some a => exact absurd ⟨info, hinfo, hvalue.1, hi, by rw [ha]; rfl, hvalue.2⟩ h
  · rw [asked_eq_none _ name hvalue, asked_eq_none _ name hvalue]

theorem not_constrainsAlias_withTargets (q : Query) : ¬L.ConstrainsAlias (L.withTargets q) := by
  rintro ⟨info, hinfo, _, hi, halias, _⟩
  obtain ⟨info, _, rfl⟩ := List.mem_map.mp hinfo
  rw [L.aliasAt_withTarget info hi] at halias
  cases halias

theorem requested_withTargets {q : Query} (h : ¬L.ConstrainsAlias q) (name : String) :
    requested L.real (L.withTargets q) name = requested L.real q name := by
  rw [requested, withTargets, List.filterMap_map]
  apply List.filterMap_congr
  intro info hinfo
  by_cases hvalue : info.usable = true ∧ ∃ expr, info.argument = some expr ∧ cstr expr ≠ ""
  · rw [Function.comp_apply, L.withTarget_of_none]
    intro hi
    cases ha : L.aliasAt info.iColumn.toNat with
    | none => rfl
    | some a => exact absurd ⟨info, hinfo, hvalue.1, hi, by rw [ha]; rfl, hvalue.2⟩ h
  · have hsame : (L.withTarget info).usable = info.usable ∧
        (L.withTarget info).argument = info.argument := by
      rw [withTarget]
      split
      · exact ⟨rfl, rfl⟩
      · exact ⟨rfl, rfl⟩
    have hvalue' := hvalue
    rw [← hsame.1, ← hsame.2] at hvalue'
    rw [Function.comp_apply, asked_eq_none _ name hvalue, asked_eq_none _ name hvalue']

/-- A constraint on an alias that was never read is filed under the name of the alias. -/
theorem requested_alias {q : Query} {info : ConstraintInfo} {a : String × Fin L.real.length}
    {expr : String} (hinfo : info ∈ q.constraints) (husable : info.usable = true)
    (hi : 0 ≤ info.iColumn) (ha : L.aliasAt info.iColumn.toNat = some a)
    (hargument : info.argument = some expr) (hexpr : cstr expr ≠ "") :
    ⟨info.op, cstr expr⟩ ∈ requested (L.columns []) q a.1 := by
  apply List.mem_filterMap.mpr
  use info, hinfo
  have hpushed : pushed (L.columns []) info = some (a.1, ⟨info.op, ""⟩) := by
    rw [pushed, columnAt, if_pos hi, L.getElem?_columns_alias [] ha]
    simp [husable, aliasColumn, sensibleComparison]
  rw [hpushed, hargument]
  simp [asked, hexpr]

/-- No constraint on a real column is filed under the name of an alias. -/
theorem requested_real {a : String × Fin L.real.length} (ha : a ∈ L.hidden) (q : Query) :
    requested L.real q a.1 = [] := by
  apply List.filterMap_eq_nil_iff.mpr
  intro info _
  rw [Option.bind_eq_none_iff]
  intro entry hentry
  have hname : entry.1 ≠ a.1 := by
    rw [pushed, columnAt] at hentry
    split at hentry
    · cases hentry
    · obtain ⟨column, hcolumn, hsome⟩ := Option.bind_eq_some_iff.mp hentry
      split at hcolumn
      · split at hsome
        · cases hsome
        · cases hsome
          exact L.name_ne ha (List.mem_of_getElem? hcolumn)
      · cases hcolumn
  rw [asked, Option.bind_eq_none_iff]
  intro expr _
  rw [if_neg]
  rintro ⟨h, _⟩
  exact hname h

/-! ### Used columns -/

theorem used_withTargets {q : Query} (h : ¬L.UsesAlias q) : (L.withTargets q).used = q.used := by
  have hsame : ∀ i ∈ q.used, L.targetOf i = id i := by
    intro i hi
    cases ha : L.aliasAt i with
    | none => exact L.targetOf_real ha
    | some a =>
        refine absurd ⟨i, by rw [ha]; rfl, ?_⟩ h
        rw [Query.colUsed, List.contains_iff_mem]
        exact List.mem_map_of_mem hi
  rw [withTargets, List.map_congr_left hsame, List.map_id]

theorem mem_used_columns {q : Query} (h : ¬L.UsesAlias q) (name : String) :
    name ∈ usedColumns (L.columns reads) q ↔ name ∈ usedColumns L.real q := by
  rw [mem_usedColumns, mem_usedColumns]
  apply exists_congr
  intro i
  cases ha : L.aliasAt i with
  | none => rw [L.getElem?_columns_real reads ha]
  | some a =>
      have hlarge : L.real[i]? = none := by
        apply List.getElem?_eq_none
        by_contra hlt
        rw [L.aliasAt_eq_none (Nat.lt_of_not_le hlt)] at ha
        cases ha
      have hbit : ¬q.colUsed (columnBit i) = true := by
        intro hused
        exact h ⟨i, by rw [ha]; rfl, hused⟩
      simp [hlarge, hbit]

/-- An alias that was never read is told as used under its own name. -/
theorem mem_used_alias {q : Query} {i : ℕ} {a : String × Fin L.real.length}
    (ha : L.aliasAt i = some a) (hused : q.colUsed (columnBit i) = true) :
    a.1 ∈ usedColumns (L.columns []) q := by
  rw [mem_usedColumns]
  exact ⟨i, L.aliasColumn a false, L.getElem?_columns_alias [] ha, hused, rfl⟩

theorem aliasAt_inj {i j : ℕ} {a b : String × Fin L.real.length} (ha : L.aliasAt i = some a)
    (hb : L.aliasAt j = some b) (h : a.1 = b.1) : i = j := by
  rw [aliasAt] at ha hb
  split at ha
  · split at hb
    · have hget : (L.hidden.map Prod.fst)[i - L.real.length]? =
          (L.hidden.map Prod.fst)[j - L.real.length]? := by
        rw [List.getElem?_map, List.getElem?_map, ha, hb, Option.map_some, Option.map_some, h]
      have hlt := (List.getElem?_eq_some_iff.mp ha).1
      have hindex := (List.getElem?_inj (by simpa using hlt)
        (List.nodup_append.mp L.distinct).2.1).mp hget
      omega
    · cases hb
  · cases ha

/-- After a read no column has the name of the alias. -/
theorem not_mem_used_read {i : ℕ} {a : String × Fin L.real.length} (ha : L.aliasAt i = some a)
    (q : Query) : a.1 ∉ usedColumns (L.columns [i]) q := by
  rw [mem_usedColumns]
  rintro ⟨j, column, hcolumn, _, hname⟩
  cases hj : L.aliasAt j with
  | none =>
      rw [L.getElem?_columns_real [i] hj] at hcolumn
      exact L.name_ne (L.mem_hidden_of_aliasAt ha) (List.mem_of_getElem? hcolumn) hname
  | some b =>
      rw [L.getElem?_columns_alias [i] hj] at hcolumn
      cases hcolumn
      by_cases hji : j = i
      · subst hji
        have hread : [j].contains j = true := by simp
        rw [hread] at hname
        exact L.get_ne_alias (L.mem_hidden_of_aliasAt ha) hname
      · have hunread : [i].contains j = false := by simp [hji]
        rw [hunread] at hname
        exact hji (L.aliasAt_inj hj ha hname)

/-! ### Affinities -/

theorem mem_columns {column : Column} (h : column ∈ L.columns reads) :
    column ∈ L.real ∨ ∃ a ∈ L.hidden, ∃ isRead, column = L.aliasColumn a isRead := by
  obtain ⟨i, hi⟩ := List.mem_iff_getElem?.mp h
  cases ha : L.aliasAt i with
  | none =>
      left
      rw [L.getElem?_columns_real reads ha] at hi
      exact List.mem_of_getElem? hi
  | some a =>
      right
      rw [L.getElem?_columns_alias reads ha] at hi
      cases hi
      exact ⟨a, L.mem_hidden_of_aliasAt ha, _, rfl⟩

theorem real_inj {c d : Column} (hc : c ∈ L.real) (hd : d ∈ L.real) (h : c.name = d.name) : c = d :=
  List.inj_on_of_nodup_map (List.nodup_append.mp L.distinct).1 hc hd h

/-- A column with the name of a real column has its type. -/
theorem type_of_name {c d : Column} (hc : c ∈ L.columns reads) (hd : d ∈ L.real)
    (h : c.name = d.name) : c.type = d.type := by
  obtain hc | ⟨a, ha, isRead, rfl⟩ := L.mem_columns reads hc
  · rw [L.real_inj hc hd h]
  · cases isRead with
    | false => exact absurd h.symm (L.name_ne ha hd)
    | true =>
        have hreal : L.real.get a.2 = d := L.real_inj (List.get_mem _ _) hd h
        rw [← hreal]
        rfl

end Layout

/-! ### Scans -/

section Scans

variable {plugin : TablePlugin} (h : plugin.WellFormed)

/-- The content of a table after scans is that of its layout after some reads. -/
def OfLayout (L : Layout) (s : State) : Prop :=
  ∃ reads constraints colsUsed n, s = ⟨L.content reads constraints colsUsed, n⟩

/-- The rows of a scan are read from a table of the layout. -/
theorem OfLayout.readRows_eq {L : Layout} {s : State} (hs : OfLayout L s) (conv : Conversions)
    (q : Query) (useCache : Bool) (rows : QueryData) :
    ∃ reads constraints colsUsed,
      readRows conv q.reads rows (prepare q useCache s).1.content =
        (L.content reads constraints colsUsed,
          rows.map fun row => q.reads.map (L.value conv row)) := by
  obtain ⟨reads, constraints, colsUsed, n, rfl⟩ := hs
  obtain ⟨reads', hreads⟩ := L.readRows_content conv reads
    (constraints.insert n (q.constraints.foldl (Plan.evaluate (L.columns reads)) {}).constraints)
    (colsUsed.insert n (usedColumns (L.columns reads) q)) q.reads rows
  exact ⟨reads', _, _, hreads⟩

theorem OfLayout.scan_fst {L : Layout} {s : State} (hs : OfLayout L s) (conv : Conversions)
    (generate : QueryContext → QueryData) (q : Query) (useCache : Bool) :
    OfLayout L (scan conv generate q useCache s).1 := by
  obtain ⟨reads, constraints, colsUsed, hreads⟩ :=
    hs.readRows_eq conv q useCache (generate (prepare q useCache s).2)
  use reads, constraints, colsUsed, (prepare q useCache s).1.kConstraintIndexID
  rw [scan]
  simp only [hreads]

theorem OfLayout.after (conv : Conversions) (history : List Earlier) :
    OfLayout (plugin.layout h) (after conv plugin history) := by
  have hrun : ∀ s, OfLayout (plugin.layout h) s →
      OfLayout (plugin.layout h) (history.foldl (fun s earlier =>
        (scan conv earlier.generate earlier.query earlier.useCache s).1) s) := by
    induction history with
    | nil =>
        intro s hs
        exact hs
    | cons earlier history ih =>
        intro s hs
        exact ih _ (hs.scan_fst conv earlier.generate earlier.query earlier.useCache)
  apply hrun
  exact ⟨[], ∅, ∅, 0, by rw [xCreate_routeInfo plugin h]⟩

/-- The values of a scan do not depend on the state. -/
theorem OfLayout.values {L : Layout} {s : State} (hs : OfLayout L s) (conv : Conversions)
    (q : Query) (useCache : Bool) (rows : QueryData) :
    (readRows conv q.reads rows (prepare q useCache s).1.content).2 =
      rows.map fun row => q.reads.map (L.value conv row) := by
  obtain ⟨reads, constraints, colsUsed, hreads⟩ := hs.readRows_eq conv q useCache rows
  rw [hreads]

/-- The contexts of scans that ask and use the same are the same. -/
theorem sameContext_of {s s' : State} (hs : OfLayout (plugin.layout h) s)
    (hs' : OfLayout (plugin.layout h) s') {q q' : Query} (useCache : Bool)
    (hrequested : ∀ name,
      requested s.content.columns q name = requested s'.content.columns q' name)
    (hused : ∀ name,
      name ∈ usedColumns s.content.columns q ↔ name ∈ usedColumns s'.content.columns q') :
    SameContext plugin (prepare q useCache s).2 (prepare q' useCache s').2 := by
  have haffinity : ∀ {s} q, OfLayout (plugin.layout h) s → ∀ column ∈ plugin.columns,
      ((prepare q useCache s).2.constraints.getD column.name {}).affinity = column.type := by
    rintro s q ⟨reads, constraints, colsUsed, n, rfl⟩ column hcolumn
    apply prepare_affinity
    · exact List.mem_append_left _ hcolumn
    · intro c hc hname
      exact (plugin.layout h).type_of_name reads hc hcolumn hname
  constructor
  · intro name
    rw [prepare_constraintsOn, prepare_constraintsOn, hrequested]
  · intro column hcolumn
    rw [haffinity q hs column hcolumn, haffinity q' hs' column hcolumn]
  · intro name
    rw [prepare_isColumnUsed, prepare_isColumnUsed, Bool.eq_iff_iff, List.contains_iff_mem,
      List.contains_iff_mem]
    exact hused name

theorem sameAnswer_of_untouched {s s' : State} (hs : OfLayout (plugin.layout h) s)
    (hs' : OfLayout (plugin.layout h) s') (conv : Conversions) {q : Query}
    (hconstrains : ¬(plugin.layout h).ConstrainsAlias q) (huses : ¬(plugin.layout h).UsesAlias q) :
    SameAnswer conv plugin q q s s' := by
  constructor
  · intro useCache
    apply sameContext_of h hs hs'
    · intro name
      obtain ⟨reads, constraints, colsUsed, n, rfl⟩ := hs
      obtain ⟨reads', constraints', colsUsed', n', rfl⟩ := hs'
      exact ((plugin.layout h).requested_columns reads hconstrains name).trans
        ((plugin.layout h).requested_columns reads' hconstrains name).symm
    · intro name
      obtain ⟨reads, constraints, colsUsed, n, rfl⟩ := hs
      obtain ⟨reads', constraints', colsUsed', n', rfl⟩ := hs'
      exact ((plugin.layout h).mem_used_columns reads huses name).trans
        ((plugin.layout h).mem_used_columns reads' huses name).symm
  · intro useCache rows
    rw [hs.values, hs'.values]

theorem sameAnswer_withTargets {s : State} (hs : OfLayout (plugin.layout h) s)
    (conv : Conversions) {q : Query} (hconstrains : ¬(plugin.layout h).ConstrainsAlias q)
    (huses : ¬(plugin.layout h).UsesAlias q) :
    SameAnswer conv plugin q ((plugin.layout h).withTargets q) s s := by
  constructor
  · intro useCache
    apply sameContext_of h hs hs
    · intro name
      obtain ⟨reads, constraints, colsUsed, n, rfl⟩ := hs
      calc requested ((plugin.layout h).columns reads) q name
          = requested (plugin.layout h).real q name :=
            (plugin.layout h).requested_columns reads hconstrains name
        _ = requested (plugin.layout h).real ((plugin.layout h).withTargets q) name :=
            ((plugin.layout h).requested_withTargets hconstrains name).symm
        _ = requested ((plugin.layout h).columns reads) ((plugin.layout h).withTargets q) name :=
            ((plugin.layout h).requested_columns reads
              ((plugin.layout h).not_constrainsAlias_withTargets q) name).symm
    · intro name
      have hmask : ∀ bit, ((plugin.layout h).withTargets q).colUsed bit = q.colUsed bit := by
        intro bit
        rw [Query.colUsed, (plugin.layout h).used_withTargets huses, Query.colUsed]
      simp only [mem_usedColumns, hmask]
  · intro useCache rows
    rw [hs.values, hs.values]
    simp [Layout.withTargets, Layout.value_targetOf]

/-- A constraint on an alias separates a query from the query with the targets. -/
theorem not_constrainsAlias_of (conv : Conversions) {q : Query}
    (hsame : SameAnswer conv plugin q ((plugin.layout h).withTargets q) (after conv plugin [])
      (after conv plugin [])) : ¬(plugin.layout h).ConstrainsAlias q := by
  rintro ⟨info, hinfo, husable, hi, halias, expr, hargument, hexpr⟩
  obtain ⟨a, ha⟩ := Option.isSome_iff_exists.mp halias
  have hcolumns : (after conv plugin []).content.columns = (plugin.layout h).columns [] :=
    congrArg VirtualTableContent.columns (xCreate_routeInfo plugin h)
  have hasked := (hsame.context false).constraints a.1
  rw [prepare_constraintsOn, prepare_constraintsOn, hcolumns,
    (plugin.layout h).requested_columns [] ((plugin.layout h).not_constrainsAlias_withTargets q),
    (plugin.layout h).requested_real ((plugin.layout h).mem_hidden_of_aliasAt ha)] at hasked
  have hmem := (plugin.layout h).requested_alias hinfo husable hi ha hargument hexpr
  rw [hasked] at hmem
  cases hmem

/-- An alias in the mask separates a new table from a table where the alias was read. -/
theorem not_usesAlias_of (conv : Conversions) {q : Query}
    (hsame : ∀ i, SameAnswer conv plugin q q (after conv plugin [])
      (after conv plugin [⟨fun _ => [∅], ⟨[], [], [i]⟩, false⟩])) :
    ¬(plugin.layout h).UsesAlias q := by
  rintro ⟨i, halias, hused⟩
  obtain ⟨a, ha⟩ := Option.isSome_iff_exists.mp halias
  have hcolumns : (after conv plugin []).content.columns = (plugin.layout h).columns [] :=
    congrArg VirtualTableContent.columns (xCreate_routeInfo plugin h)
  have hread : (after conv plugin [⟨fun _ => [∅], ⟨[], [], [i]⟩, false⟩]).content.columns =
      (plugin.layout h).columns [i] := by
    have hcontent : (prepare ⟨[], [], [i]⟩ false ⟨xCreate plugin.routeInfo, 0⟩).1.content =
        (plugin.layout h).content [] (Std.ExtTreeMap.insert ∅ 0 [])
          (Std.ExtTreeMap.insert ∅ 0
            (usedColumns ((plugin.layout h).columns []) ⟨[], [], [i]⟩)) := by
      rw [xCreate_routeInfo plugin h]
      rfl
    have hrow := (plugin.layout h).readRow_content conv [] (Std.ExtTreeMap.insert ∅ 0 [])
      (Std.ExtTreeMap.insert ∅ 0 (usedColumns ((plugin.layout h).columns []) ⟨[], [], [i]⟩)) ∅ [i]
    rw [← hcontent] at hrow
    exact congrArg (fun r => r.1.columns) hrow
  have htold := ((hsame i).context false).used a.1
  rw [prepare_isColumnUsed, prepare_isColumnUsed, hcolumns, hread, Bool.eq_iff_iff,
    List.contains_iff_mem, List.contains_iff_mem] at htold
  exact (plugin.layout h).not_mem_used_read ha q
    (htold.mp ((plugin.layout h).mem_used_alias ha hused))

end Scans

/-- A query is transparent exactly when it does not touch an alias. -/
theorem transparent_iff (conv : Conversions) (plugin : TablePlugin) (h : plugin.WellFormed)
    (q : Query) :
    Transparent conv plugin h q ↔
      ¬((plugin.layout h).ConstrainsAlias q ∨ (plugin.layout h).UsesAlias q) := by
  constructor
  · rintro ⟨htargets, hhistories⟩ (hconstrains | huses)
    · exact not_constrainsAlias_of h conv (htargets []) hconstrains
    · exact not_usesAlias_of h conv (fun i => hhistories [] _) huses
  · intro hnone
    obtain ⟨hconstrains, huses⟩ := not_or.mp hnone
    constructor
    · intro history
      exact sameAnswer_withTargets h (OfLayout.after h conv history) conv hconstrains huses
    · intro history history'
      exact sameAnswer_of_untouched h (OfLayout.after h conv history)
        (OfLayout.after h conv history') conv hconstrains huses

/-- Three columns of a table of processes. -/
def processes : TablePlugin :=
  ⟨[⟨"pid", .bigint, { index := true }⟩, ⟨"total_size", .bigint, {}⟩],
    [("total_size", ["phys_footprint"])]⟩

theorem processes_wellFormed : processes.WellFormed := ⟨by decide, by decide⟩

/-- Integers for every numeral. -/
def integers : Conversions := ⟨ℤ, String.toInt?, String.toInt?, String.toInt?⟩

/-- A query for the processes with a number, which touches no alias. -/
theorem transparent_iff_pid :
    Transparent integers processes processes_wellFormed
      ⟨[⟨0, EQUALS, true, some "1"⟩], [0, 1], [1]⟩ := by
  apply (transparent_iff integers processes processes_wellFormed _).mpr
  rintro (⟨info, hinfo, _, _, halias, _⟩ | ⟨i, halias, hused⟩)
  · obtain rfl := List.mem_singleton.mp hinfo
    exact absurd halias (by decide)
  · have hlarge : 2 ≤ i := by
      by_contra hlt
      rw [Layout.aliasAt_eq_none] at halias
      · cases halias
      · exact Nat.lt_of_not_le hlt
    have hbit : 2 ≤ columnBit i := by
      rw [columnBit]
      split
      · exact hlarge
      · omega
    rw [Query.colUsed, List.contains_iff_mem] at hused
    have hmem : columnBit i = 0 ∨ columnBit i = 1 := by simpa [columnBit] using hused
    omega

/-- A query for the alias does not tell the generator that the target is used. -/
theorem target_not_told :
    (prepare ⟨[], [2], [2]⟩ false (after integers processes [])).2.isColumnUsed "total_size" =
        false ∧
      ¬Transparent integers processes processes_wellFormed ⟨[], [2], [2]⟩ := by
  have halias : (prepare ⟨[], [2], [2]⟩ false (after integers processes [])).2.isColumnUsed
      "total_size" = false := by
    rw [prepare_isColumnUsed]
    decide
  have htarget : (prepare ((processes.layout processes_wellFormed).withTargets ⟨[], [2], [2]⟩)
      false (after integers processes [])).2.isColumnUsed "total_size" = true := by
    rw [prepare_isColumnUsed]
    decide
  constructor
  · exact halias
  · intro htransparent
    have hused := ((htransparent.targets []).context false).used "total_size"
    rw [halias, htarget] at hused
    cases hused

end Osquery.Tables
