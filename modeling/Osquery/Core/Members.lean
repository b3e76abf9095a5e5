import Osquery.Core.Rows

/-!
# Members of JSON objects

The document wrapper replaces a member that has the same name, so the names of
an object that it builds are distinct, and what an object holds is a matter of
its members and not of their order.
-/

namespace Osquery.Core.Rows

open Foundation.Changes Foundation.JsonText

/-- `JSON::add`: replace or add a member. -/
def add (members : List (String × Json)) (key : String) (value : Json) : List (String × Json) :=
  let kept := match members.findIdx? (fun m => m.1 == key) with
    | none => members
    | some i => removeMember members i
  kept ++ [(key, value)]

theorem addRef_eq_add (members : List (String × Json)) (key value : String) :
    addRef members key value = add members key (.str value) := rfl

/-- `FindMember`: the first member with a name. -/
def findMember (members : List (String × Json)) (key : String) : Option Json :=
  (members.find? fun m => m.1 == key).map Prod.snd

/-- The names of the members are distinct. -/
def Distinct (members : List (String × Json)) : Prop := (members.map Prod.fst).Nodup

theorem distinct_nil : Distinct [] := List.nodup_nil

/-! ### Replacing a member -/

/-- The last member takes the place of the removed one. -/
theorem removeMember_perm (members : List (String × Json)) {i : ℕ} (hi : i < members.length) :
    (removeMember members i).Perm (members.eraseIdx i) := by
  rcases List.eq_nil_or_concat members with rfl | ⟨init, last, rfl⟩
  · simp at hi
  · rw [List.concat_eq_append] at hi ⊢
    simp only [removeMember, List.getLast?_append, List.getLast?_singleton, Option.some_or]
    rcases Nat.lt_or_ge i init.length with hlt | hge
    · rw [List.set_append_left _ _ hlt, List.dropLast_concat, List.eraseIdx_append_of_lt_length hlt]
      exact (List.set_perm_cons_eraseIdx hlt last).trans (List.perm_append_singleton _ _).symm
    · have hi' : i = init.length := by
        simp at hi
        omega
      subst hi'
      rw [List.set_append_right _ _ (le_refl _), List.eraseIdx_append_of_length_le (le_refl _)]
      simp

/-- Where keys are different, at most one member has a key. -/
theorem eraseP_eq_filter {members : List (String × Json)} (hnodup : Distinct members)
    (key : String) : members.eraseP (·.1 == key) = members.filter (·.1 ≠ key) := by
  induction members with
  | nil => rfl
  | cons m rest ih =>
      rw [Distinct, List.map_cons, List.nodup_cons] at hnodup
      by_cases hm : m.1 = key
      · have hrest : rest.filter (·.1 ≠ key) = rest := by
          rw [List.filter_eq_self]
          intro q hq
          rw [decide_eq_true_eq]
          intro heq
          exact hnodup.1 (List.mem_map.mpr ⟨q, hq, heq.trans hm.symm⟩)
        rw [List.eraseP_cons_of_pos (by simpa using hm),
          List.filter_cons_of_neg (by simpa using hm), hrest]
      · rw [List.eraseP_cons_of_neg (by simpa using hm),
          List.filter_cons_of_pos (by simpa using hm), ih hnodup.2]

/-- A member is replaced, wherever it was. -/
theorem add_perm {members : List (String × Json)} (h : Distinct members) (key : String)
    (value : Json) : (add members key value).Perm ((key, value) :: members.filter (·.1 ≠ key)) := by
  rw [← eraseP_eq_filter h, List.eraseP_eq_eraseIdx, add]
  refine List.Perm.trans ?_ (List.perm_append_singleton _ _)
  apply List.Perm.append_right
  cases hfind : members.findIdx? (fun m => m.1 == key) with
  | none => exact List.Perm.refl _
  | some i =>
      obtain ⟨hi, -⟩ := List.findIdx?_eq_some_iff_getElem.mp hfind
      exact removeMember_perm members hi

theorem Distinct.add {members : List (String × Json)} (h : Distinct members) (key : String)
    (value : Json) : Distinct (add members key value) := by
  rw [Distinct, ((add_perm h key value).map Prod.fst).nodup_iff, List.map_cons, List.nodup_cons]
  refine ⟨?_, (List.filter_sublist.map _).nodup h⟩
  intro hmem
  obtain ⟨m, hm, heq⟩ := List.mem_map.mp hmem
  exact absurd heq (by simpa using (List.mem_filter.mp hm).2)

/-- Where names are distinct, finding a member and having it are the same. -/
theorem findMember_eq_some_iff {members : List (String × Json)} (h : Distinct members)
    {key : String} {value : Json} :
    findMember members key = some value ↔ (key, value) ∈ members := by
  induction members with
  | nil => simp [findMember]
  | cons m rest ih =>
      rw [Distinct, List.map_cons, List.nodup_cons] at h
      rw [findMember, List.find?_cons, List.mem_cons]
      by_cases hm : m.1 = key
      · subst hm
        have hnot : (m.1, value) ∉ rest := fun hmem => h.1 (List.mem_map.mpr ⟨_, hmem, rfl⟩)
        simp [hnot, Prod.ext_iff, eq_comm]
      · have hne : (key, value) ≠ m := fun heq => hm (congrArg Prod.fst heq).symm
        have hbeq : (m.1 == key) = false := by simpa using hm
        rw [hbeq, or_iff_right hne, ← ih h.2]
        rfl

theorem findMember_add {members : List (String × Json)} (h : Distinct members) (key : String)
    (value : Json) (key' : String) :
    findMember (add members key value) key' =
      if key = key' then some value else findMember members key' := by
  apply Option.ext
  intro v
  rw [findMember_eq_some_iff (h.add key value), (add_perm h key value).mem_iff, List.mem_cons,
    List.mem_filter]
  by_cases hk : key = key'
  · subst hk
    simp [eq_comm]
  · simp [hk, Ne.symm hk, findMember_eq_some_iff h]

/-! ### Objects of strings -/

/-- The members are the entries of a map, as strings. -/
structure Encodes (members : List (String × Json)) (r : Row) : Prop where
  distinct : Distinct members
  find : ∀ key, findMember members key = r[key]?.map Json.str

/-- Inserting the entries of a map one after the other gives the map. -/
theorem foldl_insert_pairs {pairs : List (String × String)} {r : Row}
    (hdistinct : pairs.Pairwise fun a b => a.1 ≠ b.1) (hentry : ∀ p ∈ pairs, r[p.1]? = some p.2)
    (hall : ∀ k, r[k]? ≠ none → k ∈ pairs.map Prod.fst) :
    pairs.foldl (fun m p => m.insert p.1 p.2) (∅ : Row) = r := by
  have hdistinct' : pairs.Pairwise fun a b => ¬compare a.1 b.1 = .eq :=
    hdistinct.imp fun hne heq => hne (Std.compare_eq_iff_eq.mp heq)
  rw [← Std.ExtTreeMap.ofList_eq_foldl]
  apply Std.ExtTreeMap.ext_getElem?
  intro k
  by_cases hk : k ∈ pairs.map Prod.fst
  · obtain ⟨p, hp, rfl⟩ := List.mem_map.mp hk
    rw [hentry p hp]
    exact Std.ExtTreeMap.getElem?_ofList_of_mem (k := p.1) (by simp) hdistinct' hp
  · rw [not_not.mp fun hne => hk (hall k hne)]
    apply Std.ExtTreeMap.getElem?_ofList_of_contains_eq_false
    rw [List.contains_eq_mem, decide_eq_false_iff_not]
    exact hk

/-- The entries of a map as members, in some order. -/
theorem Encodes.exists_pairs {members : List (String × Json)} {r : Row} (h : Encodes members r) :
    ∃ pairs : List (String × String), members = pairs.map (fun p => (p.1, Json.str p.2)) ∧
      (∀ p ∈ pairs, r[p.1]? = some p.2) ∧
        pairs.foldl (fun m p => m.insert p.1 p.2) (∅ : Row) = r := by
  have hmem : ∀ m ∈ members, ∃ s, r[m.1]? = some s ∧ m.2 = .str s := by
    intro m hm
    have hfind := (findMember_eq_some_iff h.distinct).mpr (show (m.1, m.2) ∈ members from hm)
    rw [h.find, Option.map_eq_some_iff] at hfind
    obtain ⟨s, hs, hstr⟩ := hfind
    exact ⟨s, hs, hstr.symm⟩
  have hentry : ∀ p ∈ members.map fun m => (m.1, r[m.1]?.getD ""), r[p.1]? = some p.2 := by
    intro p hp
    obtain ⟨m, hm, rfl⟩ := List.mem_map.mp hp
    obtain ⟨s, hs, -⟩ := hmem m hm
    simp [hs]
  refine ⟨members.map fun m => (m.1, r[m.1]?.getD ""), ?_, hentry, foldl_insert_pairs ?_ hentry ?_⟩
  · rw [List.map_map]
    refine (List.map_id' members).symm.trans (List.map_congr_left fun m hm => ?_)
    obtain ⟨s, hs, hstr⟩ := hmem m hm
    simp only [Function.comp_apply, hs, Option.getD_some, ← hstr]
  · exact List.pairwise_map.mpr (List.pairwise_map.mp h.distinct)
  · intro k hk
    obtain ⟨s, hs⟩ := Option.ne_none_iff_exists'.mp hk
    have hfind : findMember members k = some (.str s) := by
      rw [h.find, hs]
      rfl
    exact List.mem_map.mpr ⟨_, List.mem_map_of_mem ((findMember_eq_some_iff h.distinct).mp hfind),
      rfl⟩

/-- A storable map is read back from its members, whatever their order. -/
theorem Encodes.deserializeRow_eq {members : List (String × Json)} {r : Row}
    (h : Encodes members r) (hr : Storable r) : deserializeRow (.obj members) = .ok r := by
  obtain ⟨pairs, rfl, hentry, hfold⟩ := h.exists_pairs
  rw [deserializeRow, foldl_deserializeMember pairs ∅ fun p hp => hr _ _ (hentry p hp), hfold]

theorem encodes_nil : Encodes [] ∅ :=
  ⟨distinct_nil, fun key => by simp [findMember]⟩

/-- Adding a string adds an entry. -/
theorem Encodes.add {members : List (String × Json)} {r : Row} (h : Encodes members r)
    (key value : String) : Encodes (addRef members key value) (r.insert key value) := by
  refine ⟨h.distinct.add key (.str value), fun key' => ?_⟩
  rw [addRef_eq_add, findMember_add h.distinct, h.find, Std.ExtTreeMap.getElem?_insert]
  by_cases hk : key = key'
  · simp [hk]
  · simp [hk]

/-- The columns of a row that are listed; all of them without a list. -/
def listedColumns (r : Row) (cols : List String) : Row :=
  if cols = [] then r else r.filter fun column _ => column ∈ cols

theorem getElem?_listedColumns {r : Row} {cols : List String} (h : cols ≠ []) (column : String) :
    (listedColumns r cols)[column]? = if column ∈ cols then r[column]? else none := by
  rw [listedColumns, if_neg h, Std.ExtTreeMap.getElem?_filter']
  by_cases hc : column ∈ cols <;> cases r[column]? <;> simp [hc, Option.filter]

/-- What holds of every entry of a row holds of the listed ones. -/
theorem forall_listedColumns {P : String → String → Prop} {r : Row}
    (h : ∀ k v : String, r[k]? = some v → P k v) (cols : List String) :
    ∀ k v : String, (listedColumns r cols)[k]? = some v → P k v := by
  by_cases hcols : cols = []
  · rw [listedColumns, if_pos hcols]
    exact h
  · intro k v hk
    rw [getElem?_listedColumns hcols] at hk
    split at hk
    · exact h k v hk
    · cases hk

theorem storable_listedColumns {r : Row} (h : Storable r) (cols : List String) :
    Storable (listedColumns r cols) := forall_listedColumns h cols

/-- A row has no other columns than the listed ones when the list leaves it as it is. -/
theorem listedColumns_eq_self_iff {r : Row} {cols : List String} :
    listedColumns r cols = r ↔ cols = [] ∨ ∀ column, r[column]? ≠ none → column ∈ cols := by
  by_cases hcols : cols = []
  · rw [listedColumns, if_pos hcols]
    exact iff_of_true rfl (Or.inl hcols)
  · rw [or_iff_right hcols]
    constructor
    · intro heq column hcolumn
      by_contra hno
      rw [← heq, getElem?_listedColumns hcols, if_neg hno] at hcolumn
      exact hcolumn rfl
    · intro hall
      apply Std.ExtTreeMap.ext_getElem?
      intro column
      rw [getElem?_listedColumns hcols]
      split
      · rfl
      · rename_i hno
        exact (not_not.mp fun hne => hno (hall column hne)).symm

theorem Encodes.foldl_addRef {members : List (String × Json)} {r : Row} (h : Encodes members r)
    (pairs : List (String × String)) :
    Encodes (pairs.foldl (fun obj i => addRef obj i.1 i.2) members)
      (pairs.foldl (fun m p => m.insert p.1 p.2) r) := by
  induction pairs generalizing members r with
  | nil => exact h
  | cons p rest ih => exact ih (h.add p.1 p.2)

/-- A map is written as its entries. -/
theorem encodes_toList (r : Row) :
    Encodes (r.toList.foldl (fun obj i => addRef obj i.1 i.2) []) r := by
  have h := encodes_nil.foldl_addRef r.toList
  rwa [foldl_insert_toList] at h

/-- Add a column if the row has it. -/
def addColumn (r : Row) (obj : List (String × Json)) (c : String) : List (String × Json) :=
  match r[c]? with
  | some value => addRef obj c value
  | none => obj

theorem foldl_addColumn (r : Row) (cols : List String) {members : List (String × Json)}
    (h : Distinct members) :
    Distinct (cols.foldl (addColumn r) members) ∧
      ∀ key, findMember (cols.foldl (addColumn r) members) key =
        if key ∈ cols ∧ r[key]? ≠ none then r[key]?.map Json.str else findMember members key := by
  induction cols generalizing members with
  | nil => exact ⟨h, fun key => by simp⟩
  | cons c rest ih =>
      rw [List.foldl_cons, addColumn]
      cases hc : r[c]? with
      | none =>
          obtain ⟨hdistinct, hfind⟩ := ih h
          refine ⟨hdistinct, fun key => ?_⟩
          rw [hfind]
          by_cases hkey : key = c
          · subst hkey
            simp [hc]
          · simp [hkey]
      | some value =>
          obtain ⟨hdistinct, hfind⟩ := ih (h.add c (.str value))
          refine ⟨hdistinct, fun key => ?_⟩
          dsimp only
          rw [addRef_eq_add, hfind, findMember_add h]
          by_cases hkey : key = c
          · subst hkey
            simp [hc]
          · simp [hkey, Ne.symm hkey]

/-- A row is written as its listed columns. -/
theorem encodes_serializeRow (r : Row) (cols : List String) :
    Encodes (serializeRow r cols []) (listedColumns r cols) := by
  by_cases hcols : cols = []
  · rw [serializeRow, if_pos hcols, listedColumns, if_pos hcols]
    exact encodes_toList r
  · obtain ⟨hdistinct, hfind⟩ := foldl_addColumn r cols distinct_nil
    rw [serializeRow, if_neg hcols]
    refine ⟨hdistinct, fun key => (hfind key).trans ?_⟩
    rw [getElem?_listedColumns hcols]
    by_cases hkey : key ∈ cols
    · cases r[key]? <;> simp [hkey, findMember]
    · simp [hkey, findMember]

/-- A row is read back as its listed columns. -/
theorem deserializeRow_serializeRow_listed {r : Row} (h : Storable r) (cols : List String) :
    deserializeRow (.obj (serializeRow r cols [])) = .ok (listedColumns r cols) :=
  (encodes_serializeRow r cols).deserializeRow_eq (storable_listedColumns h cols)

end Osquery.Core.Rows
