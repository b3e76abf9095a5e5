import Osquery.DifferentialQueries.LogItem

/-!
# What is left of stored rows

The results of a query and the records of events are stored as JSON. They are
written with the lengths of their strings and read back as C strings, and an
entry with an empty name is skipped. So a row comes back as it was exactly when
its names are not empty and nothing in it contains a NUL character.
-/

namespace Osquery.DifferentialQueries

open Foundation.Changes Foundation.JsonText Core.Rows

variable (json : JsonLibrary)

/-- The text of an array of rows, read into a list. -/
def deserializeQueryRowsJSON (text : String) : Except ReadFailure QueryData :=
  match json.parse (cstr text) with
  | some (.arr items) => deserializeQueryRows (.arr items) []
  | _ => .error (.status "Cannot deserializing JSON")

/-- No name and no value of the row contains a NUL character. -/
def NulFreeRow (r : Row) : Prop :=
  ∀ k v : String, r[k]? = some v → '\x00' ∉ k.toList ∧ '\x00' ∉ v.toList

/-! ### Rows as JSON keeps them -/

theorem storable_deserializeMember {r : Row} (hr : Storable r) (member : String × Json) :
    Storable (deserializeMember r member) := by
  rw [deserializeMember]
  split
  · split
    · rename_i hname
      exact storable_insert hr hname (nul_not_mem_cstr _) (nul_not_mem_cstr _)
    · exact hr
  · exact hr

/-- Whatever is read is storable. -/
theorem storable_foldl_deserializeMember {r : Row} (hr : Storable r)
    (members : List (String × Json)) : Storable (members.foldl deserializeMember r) := by
  induction members generalizing r with
  | nil => exact hr
  | cons member members ih => exact ih (storable_deserializeMember hr member)

theorem jsonRow_eq_self_iff {r : Row} : jsonRow r = r ↔ Storable r :=
  ⟨fun h => h ▸ storable_foldl_deserializeMember storable_empty _, jsonRow_of_storable⟩

/-- A row comes back if and only if it is storable. -/
theorem deserializeRowJSON_eq_self_iff (r : Row) :
    deserializeRowJSON json (serializeRowJSON json r) = .ok r ↔ Storable r := by
  rw [deserializeRowJSON_serializeRowJSON, Except.ok.injEq, jsonRow_eq_self_iff]

/-- Without NUL characters, the entries with a name are read. -/
theorem foldl_deserializeMember_named (pairs : List (String × String)) (r : Row)
    (h : ∀ p ∈ pairs, '\x00' ∉ p.1.toList ∧ '\x00' ∉ p.2.toList) :
    (pairs.map fun p => (p.1, Json.str p.2)).foldl deserializeMember r =
      (pairs.filter fun p => p.1 ≠ "").foldl (fun m p => m.insert p.1 p.2) r := by
  induction pairs generalizing r with
  | nil => rfl
  | cons p rest ih =>
      obtain ⟨hp, hrest⟩ := List.forall_mem_cons.mp h
      rw [List.map_cons, List.foldl_cons, ih _ hrest, deserializeMember]
      dsimp only
      rw [cstr_of_no_nul hp.1, cstr_of_no_nul hp.2]
      by_cases hname : p.1 = ""
      · rw [List.filter_cons_of_neg (by simpa using hname), if_neg (not_not.mpr hname)]
      · rw [List.filter_cons_of_pos (by simpa using hname), if_pos hname, List.foldl_cons]

theorem jsonRow_eq_erase {r : Row} (h : NulFreeRow r) : jsonRow r = r.erase "" := by
  have hget : ∀ p, p ∈ r.toList ↔ r[p.1]? = some p.2 := fun p =>
    Std.ExtTreeMap.mem_toList_iff_getElem?_eq_some
  rw [jsonRow, serializeRow_eq,
    foldl_deserializeMember_named _ _ fun p hp => h p.1 p.2 ((hget p).mp hp)]
  apply foldl_insert_pairs ((pairwise_ne_toList r).filter _)
  · intro p hp
    obtain ⟨hmem, hname⟩ := List.mem_filter.mp hp
    rw [Std.ExtTreeMap.getElem?_erase, if_neg, (hget p).mp hmem]
    rw [Std.compare_eq_iff_eq]
    exact fun heq => of_decide_eq_true hname heq.symm
  · intro k hk
    rw [Std.ExtTreeMap.getElem?_erase] at hk
    split at hk
    · exact absurd rfl hk
    · rename_i hname
      obtain ⟨v, hv⟩ := Option.ne_none_iff_exists'.mp hk
      refine List.mem_map.mpr ⟨(k, v), List.mem_filter.mpr ⟨(hget (k, v)).mpr hv, ?_⟩, rfl⟩
      exact decide_eq_true fun heq => hname (Std.compare_eq_iff_eq.mpr heq.symm)

/-! ### Result sets -/

theorem appendRows_serializeRow (q qd : QueryData) :
    appendRows (q.map fun r => .obj (serializeRow r [] [])) qd = .ok (qd ++ q.map jsonRow) := by
  induction q generalizing qd with
  | nil => simp [appendRows]
  | cons r rest ih =>
      rw [List.map_cons, appendRows]
      change appendRows _ (qd ++ [jsonRow r]) = _
      rw [ih, List.append_assoc, List.map_cons, List.singleton_append]

/-- A list of rows is read back row by row. -/
theorem deserializeQueryRowsJSON_serialize (q : QueryData) :
    deserializeQueryRowsJSON json (serializeQueryDataJSON json q) = .ok (q.map jsonRow) := by
  rw [deserializeQueryRowsJSON, serializeQueryDataJSON, toString_eq_write, parse_cstr_write]
  dsimp only
  rw [deserializeQueryRows, serializeQueryData, List.nil_append, appendRows_serializeRow,
    List.nil_append]

/-- Rows without NUL characters come back without the entry of the empty name: a row by itself,
the rows of a list in their order, and the rows of a set as often as they were in it. -/
theorem rows_survive_storage {r : Row} (hr : NulFreeRow r) {q : QueryData}
    (hq : ∀ row ∈ q, NulFreeRow row) :
    deserializeRowJSON json (serializeRowJSON json r) = .ok (r.erase "") ∧
    deserializeQueryRowsJSON json (serializeQueryDataJSON json q) =
      .ok (q.map fun row => row.erase "") ∧
    ∃ out, deserializeQueryDataJSON json (serializeQueryDataJSON json q) = .ok out ∧
      (out : Multiset Row) = (q.map fun row => row.erase "" : Multiset Row) := by
  have hmap : q.map jsonRow = q.map fun row => row.erase "" :=
    List.map_congr_left fun row hrow => jsonRow_eq_erase (hq row hrow)
  refine ⟨?_, ?_, ?_⟩
  · rw [deserializeRowJSON_serializeRowJSON, jsonRow_eq_erase hr]
  · rw [deserializeQueryRowsJSON_serialize, hmap]
  · obtain ⟨out, hout, heq⟩ := deserializeQueryDataJSON_eq json q
    exact ⟨out, hout, hmap ▸ heq⟩

/-- A user, and an entry with an empty name. -/
def unnamedRow : Row := ((∅ : Row).insert "username" "root").insert "" "0"

theorem nulFreeRow_unnamedRow : NulFreeRow unnamedRow := by
  intro k v h
  have hmem : (k, v) ∈ unnamedRow.toList := Std.ExtTreeMap.mem_toList_iff_getElem?_eq_some.mpr h
  have hlist : unnamedRow.toList = [("", "0"), ("username", "root")] := by decide +kernel
  rw [hlist] at hmem
  rcases List.mem_cons.mp hmem with hmem | hmem
  · obtain ⟨rfl, rfl⟩ := Prod.mk.inj hmem
    decide
  · obtain ⟨rfl, rfl⟩ := Prod.mk.inj (List.mem_singleton.mp hmem)
    decide

theorem rows_survive_storage_unnamed :
    deserializeRowJSON reference (serializeRowJSON reference unnamedRow) =
      .ok (unnamedRow.erase "") ∧
    deserializeQueryRowsJSON reference (serializeQueryDataJSON reference [unnamedRow]) =
      .ok ([unnamedRow].map fun row => row.erase "") ∧
    ∃ out, deserializeQueryDataJSON reference (serializeQueryDataJSON reference [unnamedRow]) =
        .ok out ∧
      (out : Multiset Row) = ([unnamedRow].map fun row => row.erase "" : Multiset Row) :=
  rows_survive_storage reference nulFreeRow_unnamedRow
    (List.forall_mem_singleton.mpr nulFreeRow_unnamedRow)

/-- The entry with the empty name is lost. -/
theorem unnamedRow_not_survives :
    ¬∀ r : Row, deserializeRowJSON reference (serializeRowJSON reference r) = .ok r := by
  intro h
  have hstorable := (deserializeRowJSON_eq_self_iff reference unnamedRow).mp (h unnamedRow)
  exact (hstorable "" "0" (by decide +kernel)).1 rfl

end Osquery.DifferentialQueries
