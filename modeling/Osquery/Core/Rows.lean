import Osquery.Foundation.Changes
import Osquery.Foundation.JsonText
import Mathlib.Data.Multiset.AddSub
import Mathlib.Data.List.Sort
import Mathlib.Data.List.TakeWhile

/-!
# Rows, result sets and their JSON form

A row is an ordered map from column names to values. Rows are written as JSON
objects through the document wrapper and read back member by member; a result
set is an array of such objects.

## Implementation notes

Strings that RapidJSON hands back as C strings end at their first NUL
character (`cstr`). A `std::multiset` of rows is the list of its elements in
row order, which is the order its iteration has.
-/

namespace Osquery.Core.Rows

open Foundation.Changes Foundation.JsonText

/-- A single row of a query. -/
abbrev Row := Std.ExtTreeMap String String

/-- The result set returned by a query. -/
abbrev QueryData := List Row

/-- A C string built from a `std::string`: everything before the first NUL. -/
def cstr (s : String) : String := String.ofList (s.toList.takeWhile (· ≠ '\x00'))

theorem cstr_of_no_nul {s : String} (h : '\x00' ∉ s.toList) : cstr s = s := by
  have ht : s.toList.takeWhile (fun c => decide (c ≠ '\x00')) = s.toList := by
    apply List.takeWhile_eq_self_iff.mpr
    intro c hc
    simp only [decide_eq_true_eq]
    rintro rfl
    exact h hc
  rw [cstr, ht, String.ofList_toList]

theorem nul_not_mem_cstr (s : String) : '\x00' ∉ (cstr s).toList := by
  intro hmem
  rw [cstr, String.toList_ofList] at hmem
  have hclass := List.mem_takeWhile_imp hmem
  rw [decide_eq_true_eq] at hclass
  exact hclass rfl

theorem cstr_cstr (s : String) : cstr (cstr s) = cstr s := cstr_of_no_nul (nul_not_mem_cstr s)

/-! ### The document wrapper -/

/-- `RemoveMember` moves the last member into the place of the removed one. -/
def removeMember (members : List (String × Json)) (i : ℕ) : List (String × Json) :=
  match members.getLast? with
  | none => members
  | some last => (members.set i last).dropLast

/-- `JSON::addRef`: replace or add a string member. -/
def addRef (members : List (String × Json)) (key value : String) : List (String × Json) :=
  let kept := match members.findIdx? (fun m => m.1 == key) with
    | none => members
    | some i => removeMember members i
  kept ++ [(key, .str value)]

variable (json : JsonLibrary)

/-- `JSON::toString`: the buffer is copied as a C string. -/
def toString (doc : Json) : String := cstr (json.write doc)

@[simp] theorem toString_eq_write (doc : Json) : toString json doc = json.write doc :=
  cstr_of_no_nul (json.write_no_nul doc)

/-- Reading back what was written as a C string. -/
theorem parse_cstr_write (doc : Json) : json.parse (cstr (json.write doc)) = some doc := by
  rw [cstr_of_no_nul (json.write_no_nul doc), json.parse_write]

/-! ### One row -/

/-- Without a column list the row map is traversed, otherwise the listed
columns that the row has. -/
def serializeRow (r : Row) (cols : List String) (obj : List (String × Json)) :
    List (String × Json) :=
  if cols = [] then r.toList.foldl (fun obj i => addRef obj i.1 i.2) obj
  else cols.foldl (fun obj c => match r[c]? with
    | some value => addRef obj c value
    | none => obj) obj

def serializeRowJSON (r : Row) : String := toString json (.obj (serializeRow r [] []))

/-- A member is taken when its name is not empty and its value is a string. -/
def deserializeMember (r : Row) (member : String × Json) : Row :=
  match member.2 with
  | .str value => if cstr member.1 ≠ "" then r.insert (cstr member.1) (cstr value) else r
  | _ => r

def deserializeRow : Json → Except String Row
  | .obj members => .ok (members.foldl deserializeMember ∅)
  | _ => .error ""

def deserializeRowJSON (text : String) : Except String Row :=
  match json.parse (cstr text) with
  | some (.obj members) => deserializeRow (.obj members)
  | _ => .error "Cannot deserializing JSON"

/-! ### Result sets -/

def serializeQueryData (q : QueryData) (cols : List String) (arr : List Json) : List Json :=
  arr ++ q.map fun r => .obj (serializeRow r cols [])

def serializeQueryDataJSON (q : QueryData) : String :=
  toString json (.arr (serializeQueryData q [] []))

/-- `operator<=` of `std::map<std::string, std::string>` on the entries. -/
def entriesLe : List (String × String) → List (String × String) → Bool
  | [], _ => true
  | _ :: _, [] => false
  | (k, v) :: r, (k', v') :: r' =>
      if k < k' then true
      else if k' < k then false
      else if v < v' then true
      else if v' < v then false
      else entriesLe r r'

/-- `std::multiset<Row>`: the elements in row order. -/
abbrev QueryDataSet := List Row

def QueryDataSet.insert (r : Row) (qd : QueryDataSet) : QueryDataSet :=
  List.orderedInsert (fun a b => entriesLe a.toList b.toList = true) r qd

/-- Insert the rows one after the other; the first entry that is no object stops. -/
def deserializeRows : List Json → QueryDataSet → Except String QueryDataSet
  | [], qd => .ok qd
  | i :: rest, qd =>
      match deserializeRow i with
      | .error status => .error status
      | .ok r => deserializeRows rest (QueryDataSet.insert r qd)

def deserializeQueryData : Json → Except String QueryDataSet
  | .arr items => deserializeRows items []
  | _ => .error "JSON object was not an array"

def deserializeQueryDataJSON (text : String) : Except String QueryDataSet :=
  match json.parse (cstr text) with
  | none => .error "Error serializing JSON"
  | some doc => deserializeQueryData doc

/-! ### Rows survive the round trip -/

/-- The rows that JSON keeps: no empty column name, no NUL in names and values. -/
def Storable (r : Row) : Prop :=
  ∀ k v, r[k]? = some v → k ≠ "" ∧ '\x00' ∉ k.toList ∧ '\x00' ∉ v.toList

theorem storable_empty : Storable ∅ := by
  intro k v h
  simp at h

theorem storable_insert {r : Row} {k v : String} (hr : Storable r) (hk : k ≠ "")
    (hkn : '\x00' ∉ k.toList) (hvn : '\x00' ∉ v.toList) : Storable (r.insert k v) := by
  intro k' v' h
  rw [Std.ExtTreeMap.getElem?_insert] at h
  split at h
  · rename_i heq
    obtain rfl := Std.compare_eq_iff_eq.mp heq
    obtain rfl := Option.some.inj h
    exact ⟨hk, hkn, hvn⟩
  · exact hr k' v' h

theorem addRef_of_new {members : List (String × Json)} {key : String}
    (h : ∀ m ∈ members, m.1 ≠ key) (value : String) :
    addRef members key value = members ++ [(key, .str value)] := by
  have hnone : members.findIdx? (fun m => m.1 == key) = none := by
    rw [List.findIdx?_eq_none_iff]
    intro m hm
    simpa using h m hm
  simp [addRef, hnone]

private theorem foldl_addRef (l : List (String × String)) (obj : List (String × Json))
    (hl : l.Pairwise fun a b => a.1 ≠ b.1) (ho : ∀ m ∈ obj, ∀ p ∈ l, m.1 ≠ p.1) :
    l.foldl (fun obj i => addRef obj i.1 i.2) obj = obj ++ l.map fun p => (p.1, .str p.2) := by
  induction l generalizing obj with
  | nil => simp
  | cons p rest ih =>
      rw [List.pairwise_cons] at hl
      rw [List.foldl_cons, addRef_of_new fun m hm => ho m hm p List.mem_cons_self,
        ih _ hl.2 ?_]
      · simp
      · intro m hm q hq
        rw [List.mem_append, List.mem_singleton] at hm
        rcases hm with hm | rfl
        · exact ho m hm q (List.mem_cons_of_mem _ hq)
        · exact hl.1 q hq

/-- Column names are distinct, so a row is written entry by entry. -/
theorem serializeRow_eq (r : Row) :
    serializeRow r [] [] = r.toList.map fun p => (p.1, .str p.2) := by
  simp only [serializeRow, if_true]
  rw [foldl_addRef r.toList [] (pairwise_ne_toList r) (by simp)]
  simp

/-- Members that are strings are read one by one, if reading a text does not cut it. -/
theorem foldl_deserializeMember (l : List (String × String)) (r : Row)
    (h : ∀ p ∈ l, p.1 ≠ "" ∧ '\x00' ∉ p.1.toList ∧ '\x00' ∉ p.2.toList) :
    (l.map fun p => (p.1, Json.str p.2)).foldl deserializeMember r =
      l.foldl (fun m p => m.insert p.1 p.2) r := by
  induction l generalizing r with
  | nil => rfl
  | cons p rest ih =>
      obtain ⟨hk, hkn, hvn⟩ := h p List.mem_cons_self
      simp only [List.map_cons, List.foldl_cons, deserializeMember, cstr_of_no_nul hkn,
        cstr_of_no_nul hvn, if_pos hk]
      exact ih _ fun q hq => h q (List.mem_cons_of_mem _ hq)

theorem foldl_insert_toList {ν : Type} (r : Std.ExtTreeMap String ν) :
    r.toList.foldl (fun m p => m.insert p.1 p.2) (∅ : Std.ExtTreeMap String ν) = r := by
  rw [← Std.ExtTreeMap.ofList_eq_foldl]
  apply Std.ExtTreeMap.ext_getElem?
  intro k
  cases h : r[k]? with
  | some v =>
      apply Std.ExtTreeMap.getElem?_ofList_of_mem (k := k) (by simp)
        Std.ExtTreeMap.distinct_keys_toList
      exact Std.ExtTreeMap.mem_toList_iff_getElem?_eq_some.mpr h
  | none =>
      apply Std.ExtTreeMap.getElem?_ofList_of_contains_eq_false
      rw [Std.ExtTreeMap.map_fst_toList_eq_keys, List.contains_eq_mem, decide_eq_false_iff_not,
        Std.ExtTreeMap.mem_keys, ← Std.ExtTreeMap.isSome_getElem?_iff_mem, h]
      simp

theorem deserializeRow_serializeRow {r : Row} (h : Storable r) :
    deserializeRow (.obj (serializeRow r [] [])) = .ok r := by
  have hl : ∀ p ∈ r.toList, p.1 ≠ "" ∧ '\x00' ∉ p.1.toList ∧ '\x00' ∉ p.2.toList := by
    rintro ⟨k, v⟩ hp
    exact h k v (Std.ExtTreeMap.mem_toList_iff_getElem?_eq_some.mp hp)
  rw [deserializeRow, serializeRow_eq, foldl_deserializeMember _ _ hl, foldl_insert_toList]

/-- A row as JSON keeps it. -/
def jsonRow (r : Row) : Row := (serializeRow r [] []).foldl deserializeMember ∅

theorem jsonRow_of_storable {r : Row} (h : Storable r) : jsonRow r = r :=
  Except.ok.inj (deserializeRow_serializeRow h)

/-- What was written for a row is read back as the row that JSON keeps. -/
theorem deserializeRowJSON_serializeRowJSON (r : Row) :
    deserializeRowJSON json (serializeRowJSON json r) = .ok (jsonRow r) := by
  rw [deserializeRowJSON, serializeRowJSON, toString_eq_write, parse_cstr_write]
  rfl

theorem coe_insert (r : Row) (qd : QueryDataSet) :
    ((QueryDataSet.insert r qd : List Row) : Multiset Row) = r ::ₘ (qd : Multiset Row) := by
  rw [QueryDataSet.insert, Multiset.cons_coe, Multiset.coe_eq_coe]
  exact List.perm_orderedInsert _ r qd

/-- Rows that were written are read back as JSON keeps them. -/
theorem deserializeRows_serialize (q : QueryData) (qd : QueryDataSet) :
    ∃ out, deserializeRows (q.map fun r => .obj (serializeRow r [] [])) qd = .ok out ∧
      (out : Multiset Row) = (q.map jsonRow : Multiset Row) + (qd : Multiset Row) := by
  induction q generalizing qd with
  | nil => exact ⟨qd, rfl, by simp⟩
  | cons r rest ih =>
      obtain ⟨out, hout, heq⟩ := ih (QueryDataSet.insert (jsonRow r) qd)
      refine ⟨out, hout, ?_⟩
      rw [heq, coe_insert, List.map_cons, ← Multiset.cons_coe, Multiset.cons_add,
        Multiset.add_cons]

theorem deserializeQueryDataJSON_eq (q : QueryData) :
    ∃ out, deserializeQueryDataJSON json (serializeQueryDataJSON json q) = .ok out ∧
      (out : Multiset Row) = (q.map jsonRow : Multiset Row) := by
  obtain ⟨out, hout, heq⟩ := deserializeRows_serialize q []
  refine ⟨out, ?_, by simpa using heq⟩
  simp only [deserializeQueryDataJSON, serializeQueryDataJSON, toString_eq_write,
    parse_cstr_write, serializeQueryData, List.nil_append, deserializeQueryData]
  exact hout

/-- A stored result set of storable rows is read back as the same multiset. -/
theorem deserializeQueryDataJSON_serialize (q : QueryData) (h : ∀ r ∈ q, Storable r) :
    ∃ out, deserializeQueryDataJSON json (serializeQueryDataJSON json q) = .ok out ∧
      (out : Multiset Row) = (q : Multiset Row) := by
  obtain ⟨out, hout, heq⟩ := deserializeQueryDataJSON_eq json q
  have hsame : q.map jsonRow = q := by
    rw [List.map_congr_left fun r hr => jsonRow_of_storable (h r hr), List.map_id']
  exact ⟨out, hout, hsame ▸ heq⟩

end Osquery.Core.Rows
