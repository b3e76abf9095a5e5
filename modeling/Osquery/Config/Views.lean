import Osquery.Config.Sources
import Osquery.Database.Plugin

/-!
# Views of the configuration

The `views` parser makes a view of the SQL engine out of every member of `views` that is a
text, and records the text in the database. A text that is recorded already is skipped, any
other one replaces the view of its name. Views that are recorded and not in the document are
dropped, with their records.

## Implementation notes

The SQL engine is the map of its views, and which `CREATE VIEW` it accepts is an input of every
update. Dropping a view that is not there has no effect. Which names are one to the engine, which
takes them unquoted and ignores case, is a parameter: names with the same identity. The set of the
views to erase is a list without repeated names. Log lines are left out.
-/

namespace Osquery.Config

open Foundation.JsonText Core.BackingStore Core.Rows Database

def kConfigViews : String := "config_views."

/-- The database, the views of the SQL engine and the document of the parser. -/
structure ViewsState where
  db : Core.BackingStore.Database
  views : Std.ExtTreeMap String String
  data_ : Std.ExtTreeMap String Json

namespace ViewsState

/-- The record of a view. -/
def record (st : ViewsState) (name : String) : Option String :=
  lookup st.db kQueries (kConfigViews ++ name)

section Update

variable (ident : String → String) (accepts : String → String → Bool)

/-- What the engine drops is the view that has the name's identity. -/
def dropView (name : String) (st : ViewsState) : ViewsState :=
  { st with views := st.views.filter fun view _ => ident view ≠ ident name }

/-- The view is dropped and created again, and recorded if that succeeds. -/
def replaceView (name query : String) (st : ViewsState) : ViewsState :=
  let st := st.dropView ident name
  if accepts name query then
    { st with
      db := Ephemeral.setValue st.db kQueries (kConfigViews ++ name) query
      views := st.views.insert name query }
  else st

/-- One member of the document, and the views that are left to erase. -/
def updateView (s : ViewsState × List String) (view : String × Json) :
    ViewsState × List String :=
  match view.2 with
  | .str value =>
      let name := cstr view.1
      let query := cstr value
      if query = "" then s
      else
        let old_query := (s.1.record name).getD ""
        let erase_views := s.2.filter fun old_view => old_view ≠ name
        if old_query = query then (s.1, erase_views)
        else (s.1.replaceView ident accepts name query, erase_views)
  | _ => s

def eraseView (st : ViewsState) (old_view : String) : ViewsState :=
  let st := st.dropView ident old_view
  { st with db := Ephemeral.remove st.db kQueries (kConfigViews ++ old_view) }

/-- The names of the records. -/
def oldViews (st : ViewsState) : List String :=
  (Ephemeral.scan st.db kQueries kConfigViews 0).map fun view =>
    String.ofList (view.toList.drop kConfigViews.length)

/-- The update of the `views` parser, with its status code. -/
def update (config : Option Json) (st : ViewsState) : ℤ × ViewsState :=
  match config with
  | none => (1, st)
  | some cv =>
      let st := { st with data_ := st.data_.insert "views" cv }
      let views := (st.data_["views"]?.map getObject).getD []
      let s := views.foldl (updateView ident accepts) (st, st.oldViews)
      (0, s.2.foldl (eraseView ident) s.1)

end Update

end ViewsState

/-! ### The views that a document names -/

/-- A member that names a view, with the text of its query. -/
def namedView? (view : String × Json) : Option (String × String) :=
  match view.2 with
  | .str value => if cstr value = "" then none else some (cstr view.1, cstr value)
  | _ => none

/-- The views that a configuration object names. -/
def viewEntries (obj : Json) : List (String × String) :=
  (((parserMember? "views" obj).map getObject).getD []).filterMap namedView?

namespace ViewsState

variable (ident : String → String) (accepts : String → String → Bool)

/-- One view of a document. -/
def updateEntry (s : ViewsState × List String) (view : String × String) :
    ViewsState × List String :=
  (if s.1.record view.1 = some view.2 then s.1 else s.1.replaceView ident accepts view.1 view.2,
    s.2.filter fun old_view => old_view ≠ view.1)

theorem updateView_eq (s : ViewsState × List String) (view : String × Json) :
    updateView ident accepts s view =
      (namedView? view).elim s (updateEntry ident accepts s) := by
  obtain ⟨name, value⟩ := view
  rw [updateView, namedView?]
  cases value with
  | str value =>
      simp only
      split
      · rfl
      · next hquery =>
          have hold : (s.1.record (cstr name)).getD "" = cstr value ↔
              s.1.record (cstr name) = some (cstr value) := by
            cases s.1.record (cstr name) with
            | none => exact ⟨fun h => absurd h.symm hquery, fun h => by cases h⟩
            | some old => exact Option.some_inj.symm
          simp only [Option.elim_some, updateEntry, hold]
          split <;> rfl
  | _ => rfl

theorem foldl_updateView (views : List (String × Json)) (s : ViewsState × List String) :
    views.foldl (updateView ident accepts) s =
      (views.filterMap namedView?).foldl (updateEntry ident accepts) s := by
  induction views generalizing s with
  | nil => rfl
  | cons view views ih =>
      rw [List.foldl_cons, ih, updateView_eq]
      cases hview : namedView? view with
      | none => rw [List.filterMap_cons_none hview, Option.elim_none]
      | some entry => rw [List.filterMap_cons_some hview, List.foldl_cons, Option.elim_some]

/-! ### Records and views by name -/

variable (st : ViewsState) (name : String)

/-- No other live view has the identity of the name. -/
def Alone : Prop := ∀ other ∈ st.views, ident other = ident name → other = name

theorem record_dropView (other : String) :
    (st.dropView ident name).record other = st.record other := rfl

variable {ident st name}

theorem mem_dropView {other : String} (h : other ∈ (st.dropView ident name).views) :
    other ∈ st.views :=
  Std.ExtTreeMap.mem_of_mem_filter h

theorem views_dropView (h : st.Alone ident name) (other : String) :
    (st.dropView ident name).views[other]? = if name = other then none else st.views[other]? := by
  rw [dropView, Std.ExtTreeMap.getElem?_filter']
  cases hview : st.views[other]? with
  | none => exact (ite_self _).symm
  | some query =>
      have hmem : other ∈ st.views := by
        rw [Std.ExtTreeMap.mem_iff_isSome_getElem?, hview]
        rfl
      by_cases hname : name = other
      · subst hname
        simp
      · have hident : ident other ≠ ident name := fun heq => hname (h other hmem heq).symm
        simp [hname, hident]

theorem record_replaceView (query other : String) :
    (st.replaceView ident accepts name query).record other =
      if name = other ∧ accepts name query then some query else st.record other := by
  rw [replaceView]
  cases accepts name query with
  | false => simp only [Bool.false_eq_true, and_false, if_false, record_dropView]
  | true =>
      simp only [if_true, and_true, record, lookup_setValue, true_and, String.append_right_inj]
      rfl

theorem views_replaceView (h : st.Alone ident name) (query other : String) :
    (st.replaceView ident accepts name query).views[other]? =
      if name = other then if accepts name query then some query else none
      else st.views[other]? := by
  rw [replaceView]
  cases accepts name query with
  | false => simp only [Bool.false_eq_true, if_false, views_dropView h]
  | true =>
      simp only [if_true, Std.ExtTreeMap.getElem?_insert, compare_eq_iff_eq, views_dropView h]
      split <;> rfl

theorem record_eraseView (other : String) :
    (st.eraseView ident name).record other = if name = other then none else st.record other := by
  simp only [eraseView, record, lookup_remove, true_and, String.append_right_inj]
  rfl

theorem views_eraseView (h : st.Alone ident name) (other : String) :
    (st.eraseView ident name).views[other]? = if name = other then none else st.views[other]? :=
  views_dropView h other

variable (st name)

/-- The views that are recorded. -/
theorem mem_oldViews : name ∈ st.oldViews ↔ (st.record name).isSome := mem_map_drop_scan

variable {st}

theorem foldl_eraseView {old : List String} (h : ∀ old_view ∈ old, st.Alone ident old_view)
    (other : String) :
    (old.foldl (eraseView ident) st).record other =
        (if other ∈ old then none else st.record other) ∧
      (old.foldl (eraseView ident) st).views[other]? =
        if other ∈ old then none else st.views[other]? := by
  induction old generalizing st with
  | nil => exact ⟨(if_neg List.not_mem_nil).symm, (if_neg List.not_mem_nil).symm⟩
  | cons old_view old ih =>
      have hrest : ∀ v ∈ old, (st.eraseView ident old_view).Alone ident v :=
        fun v hv view hview => h v (List.mem_cons_of_mem _ hv) view (mem_dropView hview)
      obtain ⟨hrecord, hviews⟩ := ih hrest
      rw [List.foldl_cons, hrecord, hviews, record_eraseView,
        views_eraseView (h old_view (List.mem_cons_self ..))]
      simp only [List.mem_cons]
      by_cases hsame : old_view = other
      · subst hsame
        simp
      · simp [hsame, Ne.symm hsame]

end ViewsState

end Osquery.Config
