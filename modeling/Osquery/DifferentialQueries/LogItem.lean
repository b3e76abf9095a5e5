import Osquery.Core.Members
import Osquery.DifferentialQueries.Query

/-!
# Query log items

The results of a query are handed to the loggers as a JSON object with the rows
and some fields about the query, and are read back by whoever received it. The
writer has two layouts for the decorations of an item and limits its rows to the
listed columns. The reader knows one of the layouts and reads neither the epoch
nor the counter.

## Implementation notes

A typed accessor on a value of another type fails an assertion, which is the
failure `mistyped`. An item is read into a new one.
-/

namespace Osquery.DifferentialQueries

open Foundation.JsonText Foundation.Numeral Core.Rows

/-- Results from a schedule, snapshot, or ad-hoc execution. -/
structure QueryLogItem where
  results : DiffResults := {}
  snapshot_results : QueryData := []
  name : String := ""
  identifier : String := ""
  time : UInt64 := 0
  epoch : UInt64 := 0
  counter : UInt64 := 0
  calendar_time : String := ""
  decorations : Row := ∅
  columns : List String := []

/-! ### Writing -/

def serializeDiffResults (d : DiffResults) (cols : List String) (obj : List (String × Json)) :
    List (String × Json) :=
  add (add obj "removed" (.arr (serializeQueryData d.removed cols []))) "added"
    (.arr (serializeQueryData d.added cols []))

/-- Append the decorations, to the object itself or as one of its members. -/
def addDecorations (decorations_top_level : Bool) (decorations : Row)
    (obj : List (String × Json)) : List (String × Json) :=
  if decorations.toList = [] then obj
  else if decorations_top_level then
    decorations.toList.foldl (fun obj name => addRef obj name.1 name.2) obj
  else
    add obj "decorations"
      (.obj (decorations.toList.foldl (fun obj name => addRef obj name.1 name.2) []))

def addLegacyFields (item : QueryLogItem) (obj : List (String × Json)) : List (String × Json) :=
  let obj := addRef obj "name" item.name
  let obj := addRef obj "hostIdentifier" item.identifier
  let obj := addRef obj "calendarTime" item.calendar_time
  let obj := add obj "unixTime" (.int item.time.toNat)
  let obj := add obj "epoch" (.int item.epoch.toNat)
  add obj "counter" (.int item.counter.toNat)

def addLegacyFieldsAndDecorations (decorations_top_level : Bool) (item : QueryLogItem)
    (obj : List (String × Json)) : List (String × Json) :=
  addDecorations decorations_top_level item.decorations (addLegacyFields item obj)

/-- The members for the rows: those of a differential, or those of a snapshot. -/
def resultMembers (item : QueryLogItem) : List (String × Json) :=
  if item.results.added ≠ [] ∨ item.results.removed ≠ [] then
    add [] "diffResults" (.obj (serializeDiffResults item.results item.columns []))
  else
    addRef (add [] "snapshot" (.arr (serializeQueryData item.snapshot_results item.columns [])))
      "action" "snapshot"

def serializeQueryLogItem (decorations_top_level : Bool) (item : QueryLogItem) : Json :=
  .obj (addLegacyFieldsAndDecorations decorations_top_level item (resultMembers item))

def serializeQueryLogItemJSON (json : JsonLibrary) (decorations_top_level : Bool)
    (item : QueryLogItem) : String :=
  toString json (serializeQueryLogItem decorations_top_level item)

/-! ### Reading -/

/-- A reader ends with a status that is not OK, or with an accessor on another type. -/
inductive ReadFailure
  | status (message : String)
  | mistyped
  deriving DecidableEq, Repr

/-- Append the rows of an array to the results. -/
def appendRows : List Json → QueryData → Except ReadFailure QueryData
  | [], qd => .ok qd
  | i :: rest, qd =>
      match deserializeRow i with
      | .error message => .error (.status message)
      | .ok r => appendRows rest (qd ++ [r])

def deserializeQueryRows : Json → QueryData → Except ReadFailure QueryData
  | .arr items, qd => appendRows items qd
  | _, _ => .error (.status "")

/-- A member that may be missing, read as rows. -/
def deserializeMemberRows (members : List (String × Json)) (key : String) (qd : QueryData) :
    Except ReadFailure QueryData :=
  match findMember members key with
  | none => .ok qd
  | some rows => deserializeQueryRows rows qd

def deserializeDiffResults (dr : DiffResults) : Json → Except ReadFailure DiffResults
  | .obj members => do
      let removed ← deserializeMemberRows members "removed" dr.removed
      let added ← deserializeMemberRows members "added" dr.added
      return ⟨added, removed⟩
  | _ => .error (.status "")

def getString (members : List (String × Json)) (key : String) : Except ReadFailure String :=
  match findMember members key with
  | some (.str s) => .ok (cstr s)
  | _ => .error .mistyped

def getUint64 (members : List (String × Json)) (key : String) : Except ReadFailure UInt64 :=
  match findMember members key with
  | some (.int n) => if 0 ≤ n ∧ n < 2 ^ 64 then .ok (UInt64.ofInt n) else .error .mistyped
  | _ => .error .mistyped

def readDecorations : List (String × Json) → Row → Except ReadFailure Row
  | [], decorations => .ok decorations
  | (name, .str value) :: rest, decorations =>
      readDecorations rest (decorations.insert (cstr name) (cstr value))
  | _ :: _, _ => .error .mistyped

/-- The decorations are read when they are an object. -/
def getDecorations (members : List (String × Json)) (decorations : Row) :
    Except ReadFailure Row :=
  match findMember members "decorations" with
  | some (.obj names) => readDecorations names decorations
  | _ => .ok decorations

def getLegacyFieldsAndDecorations (members : List (String × Json)) (item : QueryLogItem) :
    Except ReadFailure QueryLogItem := do
  let decorations ← getDecorations members item.decorations
  let name ← getString members "name"
  let identifier ← getString members "hostIdentifier"
  let calendar_time ← getString members "calendarTime"
  let time ← getUint64 members "unixTime"
  return { item with decorations, name, identifier, calendar_time, time }

/-- The rows of a differential, or else those of a snapshot. -/
def deserializeResults (members : List (String × Json)) (item : QueryLogItem) :
    Except ReadFailure QueryLogItem :=
  match findMember members "diffResults" with
  | some dr => do
      let results ← deserializeDiffResults item.results dr
      return { item with results }
  | none => do
      let snapshot_results ← deserializeMemberRows members "snapshot" item.snapshot_results
      return { item with snapshot_results }

def deserializeQueryLogItem (item : QueryLogItem) : Json → Except ReadFailure QueryLogItem
  | .obj members => do
      let item ← deserializeResults members item
      getLegacyFieldsAndDecorations members item
  | _ => .error (.status "")

def deserializeQueryLogItemJSON (json : JsonLibrary) (item : QueryLogItem) (text : String) :
    Except ReadFailure QueryLogItem :=
  match json.parse (cstr text) with
  | some (.obj members) => deserializeQueryLogItem item (.obj members)
  | _ => .error (.status "Cannot deserialize JSON")

/-! ### What reading back restores -/

/-- The rows that the writer takes. -/
def QueryLogItem.writtenRows (item : QueryLogItem) : QueryData :=
  if item.results.added ≠ [] ∨ item.results.removed ≠ [] then
    item.results.added ++ item.results.removed
  else item.snapshot_results

/-- Strings without NUL characters, and column names that are not empty. -/
structure StorableItem (item : QueryLogItem) : Prop where
  rows : ∀ r ∈ item.writtenRows, Storable r
  name : '\x00' ∉ item.name.toList
  identifier : '\x00' ∉ item.identifier.toList
  calendar_time : '\x00' ∉ item.calendar_time.toList
  decorations : ∀ k v : String, item.decorations[k]? = some v →
    '\x00' ∉ k.toList ∧ '\x00' ∉ v.toList

/-- The second item has what the first one had; its snapshot counts when there is no
differential. -/
structure Restores (item restored : QueryLogItem) : Prop where
  results : restored.results = item.results
  snapshot_results : item.results.added = [] → item.results.removed = [] →
    restored.snapshot_results = item.snapshot_results
  name : restored.name = item.name
  identifier : restored.identifier = item.identifier
  time : restored.time = item.time
  calendar_time : restored.calendar_time = item.calendar_time
  decorations : restored.decorations = item.decorations
  epoch : restored.epoch = item.epoch
  counter : restored.counter = item.counter

/-- Reading gives an item with what the written one had. -/
def Survives (item : QueryLogItem) (read : Except ReadFailure QueryLogItem) : Prop :=
  ∃ restored, read = .ok restored ∧ Restores item restored

/-- The item is of the first epoch and the first run, its decorations stand in a member of their
own, and its rows have listed columns only. -/
structure Restorable (decorations_top_level : Bool) (item : QueryLogItem) : Prop where
  epoch : item.epoch = 0
  counter : item.counter = 0
  decorations : decorations_top_level = false ∨ item.decorations = ∅
  columns : item.columns = [] ∨
    ∀ r ∈ item.writtenRows, ∀ column, r[column]? ≠ none → column ∈ item.columns

/-! ### Rows -/

def listedRows (q : QueryData) (cols : List String) : QueryData :=
  q.map fun r => listedColumns r cols

theorem listedRows_eq_self_iff {q : QueryData} {cols : List String} :
    listedRows q cols = q ↔
      cols = [] ∨ ∀ r ∈ q, ∀ column, r[column]? ≠ none → column ∈ cols := by
  have hmap : listedRows q cols = q ↔ ∀ r ∈ q, listedColumns r cols = r := by
    have hinj := List.map_inj_left (l := q) (f := fun r => listedColumns r cols) (g := id)
    rwa [List.map_id] at hinj
  simp only [hmap, listedColumns_eq_self_iff]
  by_cases hcols : cols = []
  · simp [hcols]
  · simp [hcols]

theorem appendRows_serialize {q : QueryData} (h : ∀ r ∈ q, Storable r) (cols : List String)
    (qd : QueryData) :
    appendRows (serializeQueryData q cols []) qd = .ok (qd ++ listedRows q cols) := by
  rw [serializeQueryData, List.nil_append]
  induction q generalizing qd with
  | nil => simp [appendRows, listedRows]
  | cons r rest ih =>
      rw [List.map_cons, appendRows, deserializeRow_serializeRow_listed (h r List.mem_cons_self)]
      dsimp only
      rw [ih fun s hs => h s (List.mem_cons_of_mem _ hs)]
      simp [listedRows]

/-- A differential is read back with the listed columns of its rows. -/
theorem deserializeDiffResults_serialize {d : DiffResults}
    (h : ∀ r ∈ d.added ++ d.removed, Storable r) (cols : List String) :
    deserializeDiffResults {} (.obj (serializeDiffResults d cols [])) =
      .ok ⟨listedRows d.added cols, listedRows d.removed cols⟩ := by
  have hadded := appendRows_serialize
    (fun r hr => h r (List.mem_append_left _ hr)) cols ([] : QueryData)
  have hremoved := appendRows_serialize
    (fun r hr => h r (List.mem_append_right _ hr)) cols ([] : QueryData)
  have hfirst : Distinct (add [] "removed" (.arr (serializeQueryData d.removed cols []))) :=
    distinct_nil.add _ _
  simp only [deserializeDiffResults, serializeDiffResults, deserializeMemberRows,
    findMember_add hfirst, findMember_add distinct_nil, deserializeQueryRows, hadded, hremoved,
    if_true, if_neg (show ("added" : String) ≠ "removed" by decide), List.nil_append]
  rfl

/-! ### Fields -/

section Fields

variable {item : QueryLogItem} {obj : List (String × Json)}

theorem distinct_resultMembers (item : QueryLogItem) : Distinct (resultMembers item) := by
  rw [resultMembers]
  split
  · exact distinct_nil.add _ _
  · rw [addRef_eq_add]
    exact (distinct_nil.add _ _).add _ _

theorem distinct_addLegacyFields (h : Distinct obj) (item : QueryLogItem) :
    Distinct (addLegacyFields item obj) :=
  (((((h.add _ _).add _ _).add _ _).add _ _).add _ _).add _ _

/-- The members of an item before its decorations. -/
theorem findMember_addLegacyFields (h : Distinct obj) (item : QueryLogItem) (key : String) :
    findMember (addLegacyFields item obj) key =
      if "counter" = key then some (.int item.counter.toNat)
      else if "epoch" = key then some (.int item.epoch.toNat)
      else if "unixTime" = key then some (.int item.time.toNat)
      else if "calendarTime" = key then some (.str item.calendar_time)
      else if "hostIdentifier" = key then some (.str item.identifier)
      else if "name" = key then some (.str item.name)
      else findMember obj key := by
  have h₁ := h.add "name" (.str item.name)
  have h₂ := h₁.add "hostIdentifier" (.str item.identifier)
  have h₃ := h₂.add "calendarTime" (.str item.calendar_time)
  have h₄ := h₃.add "unixTime" (.int item.time.toNat)
  have h₅ := h₄.add "epoch" (.int item.epoch.toNat)
  simp only [addLegacyFields, addRef_eq_add, findMember_add h₅, findMember_add h₄,
    findMember_add h₃, findMember_add h₂, findMember_add h₁, findMember_add h]

theorem toList_eq_nil_iff {r : Row} : r.toList = [] ↔ r = ∅ := by
  constructor
  · intro h
    apply Std.ExtTreeMap.ext_getElem?
    intro k
    cases hk : r[k]? with
    | none => simp
    | some v =>
        have hmem : (k, v) ∈ r.toList := Std.ExtTreeMap.mem_toList_iff_getElem?_eq_some.mpr hk
        rw [h] at hmem
        exact absurd hmem List.not_mem_nil
  · rintro rfl
    simp

/-- Decorations in a member of their own leave the other members as they are. -/
theorem findMember_addDecorations (h : Distinct obj) {flag : Bool} {decorations : Row}
    (hdec : flag = false ∨ decorations = ∅) {key : String} (hkey : key ≠ "decorations") :
    findMember (addDecorations flag decorations obj) key = findMember obj key := by
  rw [addDecorations]
  split
  · rfl
  · rename_i hne
    rw [hdec.resolve_right fun hempty => hne (toList_eq_nil_iff.mpr hempty),
      if_neg Bool.false_ne_true, findMember_add h, if_neg (Ne.symm hkey)]

theorem readDecorations_of_pairs {pairs : List (String × String)}
    (h : ∀ p ∈ pairs, '\x00' ∉ p.1.toList ∧ '\x00' ∉ p.2.toList) (decorations : Row) :
    readDecorations (pairs.map fun p => (p.1, Json.str p.2)) decorations =
      .ok (pairs.foldl (fun m p => m.insert p.1 p.2) decorations) := by
  induction pairs generalizing decorations with
  | nil => rfl
  | cons p rest ih =>
      obtain ⟨hk, hv⟩ := h p List.mem_cons_self
      rw [List.map_cons, readDecorations, cstr_of_no_nul hk, cstr_of_no_nul hv,
        ih fun q hq => h q (List.mem_cons_of_mem _ hq)]
      rfl

/-- Decorations in a member of their own are read back. -/
theorem getDecorations_addDecorations (h : Distinct obj)
    (hnone : findMember obj "decorations" = none)
    {flag : Bool} {decorations : Row} (hdec : flag = false ∨ decorations = ∅)
    (hnul : ∀ k v : String, decorations[k]? = some v → '\x00' ∉ k.toList ∧ '\x00' ∉ v.toList) :
    getDecorations (addDecorations flag decorations obj) ∅ = .ok decorations := by
  rw [getDecorations, addDecorations]
  by_cases hempty : decorations = ∅
  · rw [if_pos (toList_eq_nil_iff.mpr hempty), hnone, hempty]
  · obtain ⟨pairs, hpairs, hentry, hfold⟩ := (encodes_toList decorations).exists_pairs
    rw [if_neg (toList_eq_nil_iff.not.mpr hempty), hdec.resolve_right hempty,
      if_neg Bool.false_ne_true, findMember_add h, if_pos rfl, hpairs]
    dsimp only
    rw [readDecorations_of_pairs (fun p hp => hnul _ _ (hentry p hp)), hfold]

/-- Adding strings makes no member an object. -/
theorem findMember_foldl_addRef_ne {key : String} (pairs : List (String × String))
    (h : Distinct obj) (hnot : ∀ names, findMember obj key ≠ some (.obj names))
    (names : List (String × Json)) :
    findMember (pairs.foldl (fun obj name => addRef obj name.1 name.2) obj) key ≠
      some (.obj names) := by
  induction pairs generalizing obj with
  | nil => exact hnot names
  | cons p rest ih =>
      refine ih (h.add p.1 (.str p.2)) fun names => ?_
      dsimp only
      rw [addRef_eq_add, findMember_add h]
      split
      · simp
      · exact hnot names

/-- Decorations among the members themselves are not read back. -/
theorem getDecorations_top_level (h : Distinct obj) (hnone : findMember obj "decorations" = none)
    {decorations : Row} (hne : decorations ≠ ∅) :
    getDecorations (addDecorations true decorations obj) ∅ = .ok ∅ := by
  have hstart : ∀ names, findMember obj "decorations" ≠ some (.obj names) := by simp [hnone]
  have hnot := findMember_foldl_addRef_ne decorations.toList h hstart
  rw [getDecorations, addDecorations, if_neg (toList_eq_nil_iff.not.mpr hne), if_pos rfl]
  split
  · rename_i names hnames
    exact absurd hnames (hnot names)
  · rfl

end Fields

/-! ### Items -/

section Items

variable {item : QueryLogItem}

/-- What is read back of an item whose decorations stand in a member of their own. -/
def QueryLogItem.kept (item : QueryLogItem) : QueryLogItem where
  results :=
    if item.results.added ≠ [] ∨ item.results.removed ≠ [] then
      ⟨listedRows item.results.added item.columns, listedRows item.results.removed item.columns⟩
    else {}
  snapshot_results :=
    if item.results.added ≠ [] ∨ item.results.removed ≠ [] then []
    else listedRows item.snapshot_results item.columns
  name := item.name
  identifier := item.identifier
  time := item.time
  calendar_time := item.calendar_time
  decorations := item.decorations

/-- The members for the rows are not among the fields. -/
theorem findMember_rows (item : QueryLogItem) {key : String}
    (hkey : key = "diffResults" ∨ key = "snapshot" ∨ key = "decorations") :
    findMember (addLegacyFields item (resultMembers item)) key =
      findMember (resultMembers item) key := by
  rw [findMember_addLegacyFields (distinct_resultMembers item)]
  rcases hkey with rfl | rfl | rfl <;> simp

theorem findMember_resultMembers_decorations (item : QueryLogItem) :
    findMember (resultMembers item) "decorations" = none := by
  have hsnapshot : Distinct (add [] "snapshot"
      (.arr (serializeQueryData item.snapshot_results item.columns []))) := distinct_nil.add _ _
  rw [resultMembers]
  split
  · rw [findMember_add distinct_nil]
    rfl
  · rw [addRef_eq_add, findMember_add hsnapshot, findMember_add distinct_nil]
    rfl

/-- The rows of an item are read back with their listed columns. -/
theorem deserializeResults_written (h : StorableItem item) {members : List (String × Json)}
    (hmembers : ∀ key, key = "diffResults" ∨ key = "snapshot" →
      findMember members key = findMember (resultMembers item) key) :
    deserializeResults members {} =
      .ok { results := item.kept.results, snapshot_results := item.kept.snapshot_results } := by
  have hrows := h.rows
  have hsnapshot : Distinct (add [] "snapshot"
      (.arr (serializeQueryData item.snapshot_results item.columns []))) := distinct_nil.add _ _
  rw [deserializeResults, hmembers _ (Or.inl rfl), QueryLogItem.kept]
  by_cases hdiff : item.results.added ≠ [] ∨ item.results.removed ≠ []
  · rw [QueryLogItem.writtenRows, if_pos hdiff] at hrows
    rw [resultMembers, if_pos hdiff, findMember_add distinct_nil, if_pos rfl]
    dsimp only
    rw [deserializeDiffResults_serialize hrows, if_pos hdiff, if_pos hdiff]
    rfl
  · rw [QueryLogItem.writtenRows, if_neg hdiff] at hrows
    have hfind : findMember (resultMembers item) "snapshot" =
        some (.arr (serializeQueryData item.snapshot_results item.columns [])) := by
      rw [resultMembers, if_neg hdiff, addRef_eq_add, findMember_add hsnapshot,
        findMember_add distinct_nil]
      rfl
    have hnone : findMember (resultMembers item) "diffResults" = none := by
      rw [resultMembers, if_neg hdiff, addRef_eq_add, findMember_add hsnapshot,
        findMember_add distinct_nil]
      rfl
    rw [hnone]
    dsimp only
    rw [deserializeMemberRows, hmembers _ (Or.inr rfl), hfind]
    dsimp only
    rw [deserializeQueryRows, appendRows_serialize hrows, if_neg hdiff, if_neg hdiff]
    rfl

theorem getUint64_of_find {members : List (String × Json)} {key : String} {n : UInt64}
    (h : findMember members key = some (.int n.toNat)) : getUint64 members key = .ok n := by
  have hlt := n.toNat_lt
  rw [getUint64, h]
  dsimp only
  rw [if_pos ⟨by omega, by omega⟩, ofInt_toNat]

theorem getString_of_find {members : List (String × Json)} {key s : String}
    (h : findMember members key = some (.str s)) (hnul : '\x00' ∉ s.toList) :
    getString members key = .ok s := by
  rw [getString, h]
  exact congrArg Except.ok (cstr_of_no_nul hnul)

/-- An item whose decorations stand in a member of their own is read back but for its epoch, its
counter and the columns that are not listed. -/
theorem deserializeQueryLogItem_serialize (h : StorableItem item) {flag : Bool}
    (hdec : flag = false ∨ item.decorations = ∅) :
    deserializeQueryLogItem {} (serializeQueryLogItem flag item) = .ok item.kept := by
  have hdistinct := distinct_addLegacyFields (distinct_resultMembers item) item
  have hfield : ∀ key, key ≠ "decorations" → findMember
      (addLegacyFieldsAndDecorations flag item (resultMembers item)) key =
        findMember (addLegacyFields item (resultMembers item)) key :=
    fun key hkey => findMember_addDecorations hdistinct hdec hkey
  have hresults : ∀ key, key = "diffResults" ∨ key = "snapshot" → findMember
      (addLegacyFieldsAndDecorations flag item (resultMembers item)) key =
        findMember (resultMembers item) key := by
    intro key hkey
    have hkey' : key = "diffResults" ∨ key = "snapshot" ∨ key = "decorations" := by
      rcases hkey with rfl | rfl <;> simp
    rw [hfield key (by rcases hkey with rfl | rfl <;> decide), findMember_rows item hkey']
  have hrows := deserializeResults_written h hresults
  have hdecorations : getDecorations
      (addLegacyFieldsAndDecorations flag item (resultMembers item)) ∅ = .ok item.decorations :=
    getDecorations_addDecorations hdistinct
      ((findMember_rows item (Or.inr (Or.inr rfl))).trans
        (findMember_resultMembers_decorations item)) hdec h.decorations
  have hfind := fun key hkey => (hfield key hkey).trans
    (findMember_addLegacyFields (distinct_resultMembers item) item key)
  have hname := getString_of_find (s := item.name) (hfind "name" (by decide)) h.name
  have hidentifier := getString_of_find (s := item.identifier)
    (hfind "hostIdentifier" (by decide)) h.identifier
  have hcalendar := getString_of_find (s := item.calendar_time)
    (hfind "calendarTime" (by decide)) h.calendar_time
  have htime := getUint64_of_find (n := item.time) (hfind "unixTime" (by decide))
  rw [serializeQueryLogItem, deserializeQueryLogItem, hrows]
  simp only [getLegacyFieldsAndDecorations, bind, Except.bind, hname, hidentifier, hcalendar, htime,
    hdecorations]
  rfl

theorem decorations_of_deserializeResults {members : List (String × Json)}
    {start read : QueryLogItem} (h : deserializeResults members start = .ok read) :
    read.decorations = start.decorations := by
  rw [deserializeResults] at h
  split at h
  · rename_i dr hdr
    cases hresults : deserializeDiffResults start.results dr with
    | error e => simp [hresults, bind, Except.bind] at h
    | ok results =>
        simp only [hresults, bind, Except.bind, pure, Except.pure, Except.ok.injEq] at h
        rw [← h]
  · cases hrows : deserializeMemberRows members "snapshot" start.snapshot_results with
    | error e => simp [hrows, bind, Except.bind] at h
    | ok rows =>
        simp only [hrows, bind, Except.bind, pure, Except.pure, Except.ok.injEq] at h
        rw [← h]

/-- The decorations of an item that was read are those of one member. -/
theorem getDecorations_of_read {members : List (String × Json)} {restored : QueryLogItem}
    (h : deserializeQueryLogItem {} (.obj members) = .ok restored) :
    getDecorations members ∅ = .ok restored.decorations := by
  rw [deserializeQueryLogItem] at h
  cases hresults : deserializeResults members {} with
  | error e => simp [hresults, bind, Except.bind] at h
  | ok read =>
      have hread := decorations_of_deserializeResults hresults
      simp only [hresults, bind, Except.bind, getLegacyFieldsAndDecorations] at h
      rw [hread] at h
      revert h
      cases getDecorations members (∅ : Row) with
      | error e => simp
      | ok decorations =>
          cases getString members "name" with
          | error e => simp
          | ok name =>
              cases getString members "hostIdentifier" with
              | error e => simp
              | ok identifier =>
                  cases getString members "calendarTime" with
                  | error e => simp
                  | ok calendar_time =>
                      cases getUint64 members "unixTime" with
                      | error e => simp
                      | ok time =>
                          intro h
                          rw [← Except.ok.inj h]

/-- What is read back is the item when its epoch and its counter are zero and its rows have
listed columns only. -/
theorem restores_kept_iff (item : QueryLogItem) :
    Restores item item.kept ↔ item.epoch = 0 ∧ item.counter = 0 ∧
      (item.columns = [] ∨
        ∀ r ∈ item.writtenRows, ∀ column, r[column]? ≠ none → column ∈ item.columns) := by
  have hrows : (item.columns = [] ∨ ∀ r ∈ item.writtenRows, ∀ column, r[column]? ≠ none →
      column ∈ item.columns) ↔ item.kept.results = item.results ∧
        (item.results.added = [] → item.results.removed = [] →
          item.kept.snapshot_results = item.snapshot_results) := by
    rw [← listedRows_eq_self_iff, QueryLogItem.writtenRows, QueryLogItem.kept]
    obtain ⟨⟨added, removed⟩, snapshot⟩ := item
    by_cases hdiff : added ≠ [] ∨ removed ≠ []
    · have hno : ¬(added = [] ∧ removed = []) := by tauto
      simp only [hdiff, if_true, DiffResults.mk.injEq]
      constructor
      · intro h
        rw [listedRows, List.map_append] at h
        obtain ⟨hadded, hremoved⟩ := List.append_inj h (List.length_map _)
        exact ⟨⟨hadded, hremoved⟩, fun ha hr => absurd ⟨ha, hr⟩ hno⟩
      · rintro ⟨⟨hadded, hremoved⟩, -⟩
        rw [listedRows, List.map_append]
        exact congrArg₂ _ hadded hremoved
    · obtain ⟨hadded, hremoved⟩ := not_or.mp hdiff
      obtain rfl := not_not.mp hadded
      obtain rfl := not_not.mp hremoved
      simp
  rw [hrows]
  constructor
  · intro h
    exact ⟨h.epoch.symm, h.counter.symm, h.results, h.snapshot_results⟩
  · rintro ⟨hepoch, hcounter, hresults, hsnapshot⟩
    exact ⟨hresults, hsnapshot, rfl, rfl, rfl, rfl, rfl, hepoch.symm, hcounter.symm⟩

/-- An item survives being written and read if and only if it is restorable. -/
theorem survives_iff {flag : Bool} (h : StorableItem item) :
    Survives item (deserializeQueryLogItem {} (serializeQueryLogItem flag item)) ↔
      Restorable flag item := by
  by_cases hdec : flag = false ∨ item.decorations = ∅
  · rw [deserializeQueryLogItem_serialize h hdec]
    have hkept : Survives item (.ok item.kept) ↔ Restores item item.kept := by
      constructor
      · rintro ⟨restored, heq, hrestores⟩
        rwa [Except.ok.inj heq]
      · exact fun hrestores => ⟨_, rfl, hrestores⟩
    rw [hkept, restores_kept_iff]
    constructor
    · rintro ⟨hepoch, hcounter, hcolumns⟩
      exact ⟨hepoch, hcounter, hdec, hcolumns⟩
    · rintro ⟨hepoch, hcounter, -, hcolumns⟩
      exact ⟨hepoch, hcounter, hcolumns⟩
  · refine iff_of_false ?_ fun hrestorable => hdec hrestorable.decorations
    obtain ⟨hflag, hne⟩ := not_or.mp hdec
    obtain rfl := Bool.not_eq_false _ ▸ hflag
    rintro ⟨restored, hread, hrestores⟩
    have hfound := getDecorations_of_read hread
    rw [addLegacyFieldsAndDecorations, getDecorations_top_level
      (distinct_addLegacyFields (distinct_resultMembers item) item)
      ((findMember_rows item (Or.inr (Or.inr rfl))).trans
        (findMember_resultMembers_decorations item)) hne] at hfound
    exact hne (hrestores.decorations.symm.trans (Except.ok.inj hfound).symm)

/-- The same for an item that is written as text and read from it. -/
theorem deserializeQueryLogItemJSON_eq (json : JsonLibrary) (flag : Bool) (item : QueryLogItem) :
    deserializeQueryLogItemJSON json {} (serializeQueryLogItemJSON json flag item) =
      deserializeQueryLogItem {} (serializeQueryLogItem flag item) := by
  rw [deserializeQueryLogItemJSON, serializeQueryLogItemJSON, toString_eq_write, parse_cstr_write]
  rfl

/-- As a document and as text, an item survives if and only if it is restorable. -/
theorem queryLogItem_survives_iff (json : JsonLibrary) (decorations_top_level : Bool)
    {item : QueryLogItem} (h : StorableItem item) :
    (Survives item (deserializeQueryLogItem {} (serializeQueryLogItem decorations_top_level item)) ↔
      Restorable decorations_top_level item) ∧
    (Survives item (deserializeQueryLogItemJSON json {}
        (serializeQueryLogItemJSON json decorations_top_level item)) ↔
      Restorable decorations_top_level item) := by
  rw [deserializeQueryLogItemJSON_eq]
  exact ⟨survives_iff h, survives_iff h⟩

end Items

/-! ### An item of a later epoch -/

/-- An item of the epoch `1` and the run `5` with a row and a decoration. -/
def laterItem : QueryLogItem where
  results := { added := [(∅ : Row).insert "pid" "7"] }
  name := "processes"
  epoch := 1
  counter := 5
  decorations := (∅ : Row).insert "host" "a"

theorem storableItem_laterItem : StorableItem laterItem where
  rows := by
    intro r hr
    obtain rfl : r = (∅ : Row).insert "pid" "7" := by
      simpa [laterItem, QueryLogItem.writtenRows] using hr
    exact storable_insert storable_empty (by decide) (by decide) (by decide)
  name := by decide
  identifier := by decide
  calendar_time := by decide
  decorations := fun k v hk =>
    (storable_insert storable_empty (by decide) (by decide) (by decide) k v hk).2

theorem queryLogItem_survives_later :
    (Survives laterItem (deserializeQueryLogItem {} (serializeQueryLogItem false laterItem)) ↔
      Restorable false laterItem) ∧
    (Survives laterItem (deserializeQueryLogItemJSON reference {}
        (serializeQueryLogItemJSON reference false laterItem)) ↔
      Restorable false laterItem) :=
  queryLogItem_survives_iff reference false storableItem_laterItem

/-- The epoch and the counter of the item are lost. -/
theorem later_not_survives :
    ¬∀ (decorations_top_level : Bool) (item : QueryLogItem), StorableItem item →
      Survives item
        (deserializeQueryLogItem {} (serializeQueryLogItem decorations_top_level item)) := by
  intro h
  have hrestorable := (survives_iff storableItem_laterItem).mp
    (h false laterItem storableItem_laterItem)
  exact absurd hrestorable.epoch (by decide)

end Osquery.DifferentialQueries
