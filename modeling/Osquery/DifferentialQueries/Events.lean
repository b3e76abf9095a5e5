import Osquery.DifferentialQueries.RowStorage

/-!
# Results as events

With event logging every changed row of an item becomes an object of its own. The
rows are first written into a temporary document, under the name of their action,
and then copied from it one by one. Each event repeats the fields of its item, and
the decorations stand in a member of their own or, with `decorations_top_level`,
among the fields.

## Implementation notes

A decoration that is added after the fields replaces the field of the same name.
The columns and the action are added after the decorations, so no decoration can
replace these. A value that is no string fails an assertion when it is copied.
-/

namespace Osquery.DifferentialQueries

open Foundation.JsonText Core.Rows

/-! ### Writing events -/

/-- Copy the members of a row through C strings. -/
def copyColumns :
    List (String × Json) → List (String × Json) → Except ReadFailure (List (String × Json))
  | [], columns => .ok columns
  | (name, .str value) :: rest, columns =>
      copyColumns rest (addRef columns (cstr name) (cstr value))
  | _ :: _, _ => .error .mistyped

def serializeEvent (decorations_top_level : Bool) (item : QueryLogItem) (event_obj : Json)
    (obj : List (String × Json)) : Except ReadFailure (List (String × Json)) :=
  match event_obj with
  | .obj members => do
      let columns ← copyColumns members []
      return add (addLegacyFieldsAndDecorations decorations_top_level item obj) "columns"
        (.obj columns)
  | _ => .error .mistyped

/-- The events of the rows of one action. -/
def serializeRowEvents (decorations_top_level : Bool) (item : QueryLogItem) (action : String) :
    List Json → List Json → Except ReadFailure (List Json)
  | [], doc => .ok doc
  | row :: rows, doc => do
      let obj ← serializeEvent decorations_top_level item row []
      serializeRowEvents decorations_top_level item action rows
        (doc ++ [.obj (addRef obj "action" (cstr action))])

def serializeActions (decorations_top_level : Bool) (item : QueryLogItem) :
    List (String × Json) → List Json → Except ReadFailure (List Json)
  | [], doc => .ok doc
  | (action, .arr rows) :: actions, doc => do
      let doc ← serializeRowEvents decorations_top_level item action rows doc
      serializeActions decorations_top_level item actions doc
  | _ :: _, _ => .error .mistyped

/-- The temporary document: the rows of each action. A snapshot keeps all of its columns. -/
def actionMembers (item : QueryLogItem) : Except ReadFailure (List (String × Json)) :=
  if item.results.added ≠ [] ∨ item.results.removed ≠ [] then
    .ok (serializeDiffResults item.results item.columns [])
  else if item.snapshot_results ≠ [] then
    .ok (add [] "snapshot" (.arr (serializeQueryData item.snapshot_results [] [])))
  else .error (.status "No differential or snapshot results")

def serializeQueryLogItemAsEvents (decorations_top_level : Bool) (item : QueryLogItem)
    (doc : List Json) : Except ReadFailure (List Json) := do
  let actions ← actionMembers item
  serializeActions decorations_top_level item actions doc

def serializeQueryLogItemAsEventsJSON (json : JsonLibrary) (decorations_top_level : Bool)
    (item : QueryLogItem) : Except ReadFailure (List String) := do
  let events ← serializeQueryLogItemAsEvents decorations_top_level item []
  return events.map (toString json)

/-! ### One event for each change -/

/-- The changed rows with their actions and the columns that are logged of them. -/
def QueryLogItem.changes (item : QueryLogItem) : List (String × Row) :=
  if item.results.added ≠ [] ∨ item.results.removed ≠ [] then
    (listedRows item.results.removed item.columns).map (Prod.mk "removed") ++
      (listedRows item.results.added item.columns).map (Prod.mk "added")
  else item.snapshot_results.map (Prod.mk "snapshot")

/-- The fields that every event repeats. -/
def QueryLogItem.fields (item : QueryLogItem) : List (String × Json) :=
  [("name", .str item.name), ("hostIdentifier", .str item.identifier),
    ("calendarTime", .str item.calendar_time), ("unixTime", .int item.time.toNat),
    ("epoch", .int item.epoch.toNat), ("counter", .int item.counter.toNat)]

/-- The members are those of an event for a change of an item. -/
structure IsEvent (item : QueryLogItem) (change : String × Row) (members : List (String × Json)) :
    Prop where
  action : findMember members "action" = some (.str change.1)
  columns : ∃ columns, findMember members "columns" = some (.obj columns) ∧
    Encodes columns change.2
  fields : ∀ field ∈ item.fields, findMember members field.1 = some field.2

/-- The call fails if and only if there is nothing to log; otherwise it yields one event for each
change, in the order of the changes. -/
def LogsEachChange (json : JsonLibrary) (decorations_top_level : Bool) (item : QueryLogItem) :
    Prop :=
  ((∃ failure,
      serializeQueryLogItemAsEventsJSON json decorations_top_level item = .error failure) ↔
    item.results.added = [] ∧ item.results.removed = [] ∧ item.snapshot_results = []) ∧
  ∀ texts, serializeQueryLogItemAsEventsJSON json decorations_top_level item = .ok texts →
    List.Forall₂ (fun change text => ∃ members,
      json.parse text = some (.obj members) ∧ IsEvent item change members) item.changes texts

/-- No decoration has the name of a field and another value. -/
def Harmless (item : QueryLogItem) : Prop :=
  ∀ field ∈ item.fields, ∀ value, item.decorations[field.1]? = some value → field.2 = .str value

/-! ### The columns of an event -/

theorem copyColumns_pairs (pairs : List (String × String)) (columns : List (String × Json))
    (h : ∀ p ∈ pairs, '\x00' ∉ p.1.toList ∧ '\x00' ∉ p.2.toList) :
    copyColumns (pairs.map fun p => (p.1, Json.str p.2)) columns =
      .ok (pairs.foldl (fun obj p => addRef obj p.1 p.2) columns) := by
  induction pairs generalizing columns with
  | nil => rfl
  | cons p rest ih =>
      obtain ⟨hp, hrest⟩ := List.forall_mem_cons.mp h
      rw [List.map_cons, copyColumns, cstr_of_no_nul hp.1, cstr_of_no_nul hp.2, ih _ hrest]
      rfl

theorem nulFreeRow_listedColumns {r : Row} (h : NulFreeRow r) (cols : List String) :
    NulFreeRow (listedColumns r cols) := forall_listedColumns h cols

/-- A row that was written is copied with its entries. -/
theorem copyColumns_serializeRow {r : Row} (h : NulFreeRow r) (cols : List String) :
    ∃ columns, copyColumns (serializeRow r cols []) [] = .ok columns ∧
      Encodes columns (listedColumns r cols) := by
  obtain ⟨pairs, hpairs, hentry, hfold⟩ := (encodes_serializeRow r cols).exists_pairs
  refine ⟨_, hpairs ▸ copyColumns_pairs pairs [] fun p hp =>
    nulFreeRow_listedColumns h cols p.1 p.2 (hentry p hp), ?_⟩
  have hencodes := encodes_nil.foldl_addRef pairs
  rwa [hfold] at hencodes

/-! ### The events of an item -/

section Events

variable {flag : Bool} {item : QueryLogItem}

/-- The members of an event with some columns. -/
def eventMembers (flag : Bool) (item : QueryLogItem) (action : String)
    (columns : List (String × Json)) : List (String × Json) :=
  addRef (add (addLegacyFieldsAndDecorations flag item []) "columns" (.obj columns)) "action" action

/-- The event that is written for a change. -/
def WrittenFor (flag : Bool) (item : QueryLogItem) (change : String × Row) (event : Json) : Prop :=
  ∃ columns, event = .obj (eventMembers flag item change.1 columns) ∧ Encodes columns change.2

theorem serializeRowEvents_serialize (flag : Bool) (item : QueryLogItem) {action : String}
    (haction : '\x00' ∉ action.toList) (cols : List String) {q : QueryData}
    (h : ∀ r ∈ q, NulFreeRow r) (doc : List Json) :
    ∃ events, serializeRowEvents flag item action (serializeQueryData q cols []) doc =
        .ok (doc ++ events) ∧
      List.Forall₂ (WrittenFor flag item) ((listedRows q cols).map (Prod.mk action)) events := by
  rw [serializeQueryData, List.nil_append]
  induction q generalizing doc with
  | nil => exact ⟨[], by rw [List.append_nil]; rfl, List.Forall₂.nil⟩
  | cons r rest ih =>
      obtain ⟨hr, hrest⟩ := List.forall_mem_cons.mp h
      obtain ⟨columns, hcopy, hencodes⟩ := copyColumns_serializeRow hr cols
      obtain ⟨events, hevents, hforall⟩ :=
        ih hrest (doc ++ [.obj (eventMembers flag item action columns)])
      refine ⟨.obj (eventMembers flag item action columns) :: events, ?_, ?_⟩
      · rw [List.map_cons, serializeRowEvents, serializeEvent, hcopy, cstr_of_no_nul haction]
        refine Eq.trans hevents ?_
        rw [List.append_assoc, List.singleton_append]
      · exact List.Forall₂.cons ⟨columns, rfl, hencodes⟩ hforall

theorem actionMembers_diff (h : item.results.added ≠ [] ∨ item.results.removed ≠ []) :
    actionMembers item =
      .ok [("removed", .arr (serializeQueryData item.results.removed item.columns [])),
        ("added", .arr (serializeQueryData item.results.added item.columns []))] := by
  rw [actionMembers, if_pos h]
  rfl

theorem actionMembers_snapshot (h : ¬(item.results.added ≠ [] ∨ item.results.removed ≠ []))
    (hrows : item.snapshot_results ≠ []) :
    actionMembers item =
      .ok [("snapshot", .arr (serializeQueryData item.snapshot_results [] []))] := by
  rw [actionMembers, if_neg h, if_pos hrows]
  rfl

/-- All strings in the rows of an item are free of NUL characters. -/
def NulFreeRows (item : QueryLogItem) : Prop :=
  ∀ r ∈ item.results.added ++ item.results.removed ++ item.snapshot_results, NulFreeRow r

/-- With rows to log, one event is written for each change. -/
theorem serializeQueryLogItemAsEvents_written (flag : Bool) (h : NulFreeRows item)
    (hchanges : item.changes ≠ []) :
    ∃ events, serializeQueryLogItemAsEvents flag item [] = .ok events ∧
      List.Forall₂ (WrittenFor flag item) item.changes events := by
  rw [serializeQueryLogItemAsEvents]
  rw [QueryLogItem.changes] at hchanges ⊢
  by_cases hdiff : item.results.added ≠ [] ∨ item.results.removed ≠ []
  · have hadded : ∀ r ∈ item.results.added, NulFreeRow r := fun r hr =>
      h r (List.mem_append_left _ (List.mem_append_left _ hr))
    have hremoved : ∀ r ∈ item.results.removed, NulFreeRow r := fun r hr =>
      h r (List.mem_append_left _ (List.mem_append_right _ hr))
    obtain ⟨first, hfirst, hforall⟩ := serializeRowEvents_serialize flag item
      (show '\x00' ∉ "removed".toList by decide) item.columns hremoved []
    obtain ⟨second, hsecond, hforall'⟩ := serializeRowEvents_serialize flag item
      (show '\x00' ∉ "added".toList by decide) item.columns hadded first
    refine ⟨first ++ second, ?_, ?_⟩
    · rw [actionMembers_diff hdiff]
      simp only [bind, Except.bind, serializeActions, hfirst, hsecond, List.nil_append]
    · rw [if_pos hdiff]
      exact List.rel_append hforall hforall'
  · rw [if_neg hdiff] at hchanges ⊢
    have hrows : item.snapshot_results ≠ [] := fun hnil => hchanges (by rw [hnil]; rfl)
    obtain ⟨events, hevents, hforall⟩ := serializeRowEvents_serialize flag item
      (show '\x00' ∉ "snapshot".toList by decide) []
      (fun r hr => h r (List.mem_append_right _ hr)) []
    refine ⟨events, ?_, ?_⟩
    · rw [actionMembers_snapshot hdiff hrows]
      simp only [bind, Except.bind, serializeActions, hevents, List.nil_append]
    · rwa [listedRows_eq_self_iff.mpr (Or.inl rfl)] at hforall

theorem changes_eq_nil_iff : item.changes = [] ↔
    item.results.added = [] ∧ item.results.removed = [] ∧ item.snapshot_results = [] := by
  rw [QueryLogItem.changes]
  by_cases hdiff : item.results.added ≠ [] ∨ item.results.removed ≠ []
  · rw [if_pos hdiff, List.append_eq_nil_iff, List.map_eq_nil_iff, List.map_eq_nil_iff, listedRows,
      listedRows, List.map_eq_nil_iff, List.map_eq_nil_iff]
    tauto
  · rw [if_neg hdiff, List.map_eq_nil_iff]
    tauto

theorem serializeQueryLogItemAsEvents_empty (h : item.changes = []) :
    serializeQueryLogItemAsEvents flag item [] =
      .error (.status "No differential or snapshot results") := by
  obtain ⟨hadded, hremoved, hsnapshot⟩ := changes_eq_nil_iff.mp h
  rw [serializeQueryLogItemAsEvents, actionMembers, hadded, hremoved, hsnapshot]
  rfl

/-! ### Fields and decorations -/

/-- The last string under a name is the one that an object keeps. -/
theorem findMember_foldl_addRef {obj : List (String × Json)} (h : Distinct obj)
    (pairs : List (String × String)) (key : String) :
    Distinct (pairs.foldl (fun obj p => addRef obj p.1 p.2) obj) ∧
      findMember (pairs.foldl (fun obj p => addRef obj p.1 p.2) obj) key =
        match (pairs.foldl (fun m p => m.insert p.1 p.2) (∅ : Row))[key]? with
        | some value => some (.str value)
        | none => findMember obj key := by
  induction pairs using List.reverseRecOn with
  | nil => exact ⟨h, by simp⟩
  | append_singleton rest p ih =>
      obtain ⟨hdistinct, hfind⟩ := ih
      simp only [List.foldl_append, List.foldl_cons, List.foldl_nil]
      refine ⟨hdistinct.add p.1 (.str p.2), ?_⟩
      rw [addRef_eq_add, findMember_add hdistinct, hfind, Std.ExtTreeMap.getElem?_insert]
      by_cases hkey : p.1 = key
      · simp [hkey]
      · simp [hkey]

theorem distinct_addDecorations {obj : List (String × Json)} (h : Distinct obj) (flag : Bool)
    (decorations : Row) : Distinct (addDecorations flag decorations obj) := by
  rw [addDecorations]
  split
  · exact h
  · split
    · exact (findMember_foldl_addRef h _ "").1
    · exact h.add _ _

theorem distinct_addLegacyFieldsAndDecorations (flag : Bool) (item : QueryLogItem) :
    Distinct (addLegacyFieldsAndDecorations flag item []) :=
  distinct_addDecorations (distinct_addLegacyFields distinct_nil item) flag item.decorations

/-- Among the fields, a decoration replaces the field of its name. -/
theorem findMember_top_level (item : QueryLogItem) (key : String) :
    findMember (addLegacyFieldsAndDecorations true item []) key =
      match item.decorations[key]? with
      | some value => some (.str value)
      | none => findMember (addLegacyFields item []) key := by
  rw [addLegacyFieldsAndDecorations, addDecorations]
  split
  · rename_i hempty
    rw [toList_eq_nil_iff.mp hempty, Std.ExtTreeMap.getElem?_empty]
  · rw [if_pos rfl, (findMember_foldl_addRef (distinct_addLegacyFields distinct_nil item) _ key).2,
      foldl_insert_toList]

/-- The fields before the decorations. -/
theorem findMember_field {field : String × Json} (h : field ∈ item.fields) :
    findMember (addLegacyFields item []) field.1 = some field.2 := by
  rw [findMember_addLegacyFields distinct_nil]
  simp only [QueryLogItem.fields, List.mem_cons, List.not_mem_nil, or_false] at h
  rcases h with rfl | rfl | rfl | rfl | rfl | rfl <;> rfl

theorem field_ne {field : String × Json} (h : field ∈ item.fields) :
    field.1 ≠ "decorations" ∧ field.1 ≠ "columns" ∧ field.1 ≠ "action" := by
  have hnames : ∀ name ∈ ["name", "hostIdentifier", "calendarTime", "unixTime", "epoch", "counter"],
      name ≠ "decorations" ∧ name ≠ "columns" ∧ name ≠ "action" := by
    decide
  exact hnames field.1 (List.mem_map_of_mem h)

/-- The fields are those of the item if and only if no decoration replaces one by another value. -/
theorem fields_kept_iff (flag : Bool) (item : QueryLogItem) :
    (∀ field ∈ item.fields,
      findMember (addLegacyFieldsAndDecorations flag item []) field.1 = some field.2) ↔
      flag = false ∨ Harmless item := by
  cases flag with
  | false =>
      refine iff_of_true (fun field hfield => ?_) (Or.inl rfl)
      rw [addLegacyFieldsAndDecorations, findMember_addDecorations
        (distinct_addLegacyFields distinct_nil item) (Or.inl rfl) (field_ne hfield).1]
      exact findMember_field hfield
  | true =>
      rw [or_iff_right (by decide)]
      apply forall₂_congr
      intro field hfield
      rw [findMember_top_level]
      cases hdec : item.decorations[field.1]? with
      | none =>
          refine iff_of_true (findMember_field hfield) ?_
          intro other hother
          cases hother
      | some value =>
          constructor
          · intro heq other hother
            rw [← Option.some.inj heq, Option.some.inj hother]
          · intro hall
            exact congrArg some (hall value rfl).symm

/-- What a written event holds. -/
theorem isEvent_iff {change : String × Row} {event : Json} {members : List (String × Json)}
    (h : WrittenFor flag item change event) (hmembers : event = .obj members) :
    IsEvent item change members ↔ flag = false ∨ Harmless item := by
  obtain ⟨columns, rfl, hencodes⟩ := h
  obtain rfl := Json.obj.inj hmembers
  have hlegacy := distinct_addLegacyFieldsAndDecorations flag item
  have hcolumns := hlegacy.add "columns" (.obj columns)
  have hfind : ∀ key, findMember (eventMembers flag item change.1 columns) key =
      if "action" = key then some (.str change.1)
      else if "columns" = key then some (.obj columns)
      else findMember (addLegacyFieldsAndDecorations flag item []) key := by
    intro key
    rw [eventMembers, addRef_eq_add, findMember_add hcolumns, findMember_add hlegacy]
  have hfield : ∀ field ∈ item.fields,
      findMember (eventMembers flag item change.1 columns) field.1 =
        findMember (addLegacyFieldsAndDecorations flag item []) field.1 := by
    intro field hmem
    rw [hfind, if_neg (field_ne hmem).2.2.symm, if_neg (field_ne hmem).2.1.symm]
  rw [← fields_kept_iff]
  constructor
  · intro h field hmem
    rw [← hfield field hmem]
    exact h.fields field hmem
  · intro h
    refine ⟨hfind "action", ⟨columns, hfind "columns", hencodes⟩, fun field hmem => ?_⟩
    rw [hfield field hmem]
    exact h field hmem

/-- The call fails if and only if there is nothing to log. -/
theorem asEventsJSON_fails_iff (json : JsonLibrary) (h : NulFreeRows item) :
    (∃ failure, serializeQueryLogItemAsEventsJSON json flag item = .error failure) ↔
      item.changes = [] := by
  constructor
  · rintro ⟨failure, hfailure⟩
    by_contra hchanges
    obtain ⟨events, hevents, -⟩ := serializeQueryLogItemAsEvents_written flag h hchanges
    rw [serializeQueryLogItemAsEventsJSON, hevents] at hfailure
    cases hfailure
  · intro hchanges
    refine ⟨.status "No differential or snapshot results", ?_⟩
    rw [serializeQueryLogItemAsEventsJSON, serializeQueryLogItemAsEvents_empty hchanges]
    rfl

/-- With something to log, the decorations decide. -/
theorem logsEachChange_of_changes (json : JsonLibrary) (h : NulFreeRows item)
    (hchanges : item.changes ≠ []) :
    LogsEachChange json flag item ↔ flag = false ∨ Harmless item := by
  obtain ⟨events, hevents, hwritten⟩ := serializeQueryLogItemAsEvents_written flag h hchanges
  have htexts : serializeQueryLogItemAsEventsJSON json flag item =
      .ok (events.map (toString json)) := by
    rw [serializeQueryLogItemAsEventsJSON, hevents]
    rfl
  have hparse : ∀ event, json.parse (toString json event) = some event := fun event => by
    rw [toString_eq_write, json.parse_write]
  rw [LogsEachChange, ← changes_eq_nil_iff, and_iff_right (asEventsJSON_fails_iff json h), htexts]
  constructor
  · intro hlogged
    have hforall := List.forall₂_map_right_iff.mp (hlogged _ rfl)
    obtain ⟨first, rest, hcons⟩ := List.exists_cons_of_ne_nil hchanges
    rw [hcons] at hwritten hforall
    obtain ⟨event, events, hfirst, -, rfl⟩ := List.forall₂_cons_left_iff.mp hwritten
    obtain ⟨⟨members, hmembers, hevent⟩, -⟩ := List.forall₂_cons.mp hforall
    rw [hparse] at hmembers
    exact (isEvent_iff hfirst (Option.some.inj hmembers)).mp hevent
  · intro hkept texts heq
    obtain rfl := Except.ok.inj heq
    apply List.forall₂_map_right_iff.mpr
    apply hwritten.imp
    intro change event hevent
    obtain ⟨columns, rfl, -⟩ := id hevent
    exact ⟨_, hparse _, (isEvent_iff hevent rfl).mpr hkept⟩

end Events

/-- Each change is logged once, with the fields of its item, if and only if there is nothing to
log, the decorations stand in a member of their own, or none of them has the name of a field and
another value. -/
theorem logsEachChange_iff (json : JsonLibrary) (decorations_top_level : Bool)
    {item : QueryLogItem} (h : NulFreeRows item) :
    LogsEachChange json decorations_top_level item ↔
      item.changes = [] ∨ decorations_top_level = false ∨ Harmless item := by
  by_cases hchanges : item.changes = []
  · refine iff_of_true ?_ (Or.inl hchanges)
    rw [LogsEachChange, ← changes_eq_nil_iff, and_iff_right (asEventsJSON_fails_iff json h)]
    intro texts htexts
    rw [serializeQueryLogItemAsEventsJSON, serializeQueryLogItemAsEvents_empty hchanges] at htexts
    cases htexts
  · rw [or_iff_right hchanges]
    exact logsEachChange_of_changes json h hchanges

/-- A decoration with the name of a field. -/
def decoratedItem : QueryLogItem where
  results := { added := [(∅ : Row).insert "path" "/tmp"] }
  name := "processes"
  identifier := "host"
  decorations := (∅ : Row).insert "name" "laptop"

theorem nulFreeRows_decoratedItem : NulFreeRows decoratedItem := by
  intro r hr k v hk
  obtain rfl := List.mem_singleton.mp hr
  rw [Std.ExtTreeMap.getElem?_insert] at hk
  split at hk
  · rename_i heq
    obtain rfl := Std.compare_eq_iff_eq.mp heq
    obtain rfl := Option.some.inj hk
    decide
  · simp at hk

theorem logsEachChange_decoratedItem :
    LogsEachChange reference false decoratedItem ↔
      decoratedItem.changes = [] ∨ false = false ∨ Harmless decoratedItem :=
  logsEachChange_iff reference false nulFreeRows_decoratedItem

/-- The event of the new row carries the name of the decoration. -/
theorem not_logsEachChange_top_level : ¬LogsEachChange reference true decoratedItem := by
  rw [logsEachChange_of_changes reference nulFreeRows_decoratedItem
    (mt changes_eq_nil_iff.mp fun h => absurd h.1 (List.cons_ne_nil _ _))]
  rintro (hflag | hharmless)
  · cases hflag
  · have hname := hharmless ("name", .str "processes") List.mem_cons_self "laptop"
      (by decide +kernel)
    exact absurd (Json.str.inj hname) (by decide)

end Osquery.DifferentialQueries
