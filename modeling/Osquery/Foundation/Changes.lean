import Mathlib.Data.List.Nodup

/-!
# Maps that are changed in place

A list of changes is made to a map, each to the value of one key when the key is there.
What becomes of a value is the composition of the changes of its key, so the map is what
it was exactly when these compositions keep the values. When every key is changed once and
later changed back, this is a condition on single values.
-/

namespace Osquery.Foundation.Changes

variable {κ ν ε : Type*} [DecidableEq κ]

/-- What the changes do to a value of `k`. -/
def changed (changes : List (κ × (ν → ν))) (k : κ) (v : ν) : ν :=
  changes.foldl (fun v c => if c.1 = k then c.2 v else v) v

theorem changed_append (changes more : List (κ × (ν → ν))) (k : κ) (v : ν) :
    changed (changes ++ more) k v = changed more k (changed changes k v) :=
  List.foldl_append

theorem changed_of_not_mem {changes : List (κ × (ν → ν))} {k : κ}
    (h : k ∉ changes.map Prod.fst) (v : ν) : changed changes k v = v := by
  induction changes with
  | nil => rfl
  | cons c changes ih =>
      simp only [List.map_cons, List.mem_cons, not_or] at h
      simp only [changed, List.foldl_cons, if_neg (Ne.symm h.1)]
      exact ih h.2

theorem changed_of_mem {changes : List (κ × (ν → ν))} {c : κ × (ν → ν)}
    (hnodup : (changes.map Prod.fst).Nodup) (h : c ∈ changes) (v : ν) :
    changed changes c.1 v = c.2 v := by
  induction changes with
  | nil => cases h
  | cons c' changes ih =>
      obtain ⟨hc', hrest⟩ := List.nodup_cons.mp hnodup
      obtain rfl | h := List.mem_cons.mp h
      · simp only [changed, List.foldl_cons, if_true]
        exact changed_of_not_mem hc' _
      · have hne : c'.1 ≠ c.1 := by
          intro heq
          exact hc' (heq ▸ List.mem_map_of_mem h)
        simp only [changed, List.foldl_cons, if_neg hne]
        exact ih hrest h

variable [Ord κ] [Std.TransOrd κ]

def changeAll (t : Std.ExtTreeMap κ ν) (changes : List (κ × (ν → ν))) : Std.ExtTreeMap κ ν :=
  changes.foldl (fun t c => t.modify c.1 c.2) t

variable [Std.LawfulEqOrd κ]

theorem getElem?_changeAll (t : Std.ExtTreeMap κ ν) (changes : List (κ × (ν → ν))) (k : κ) :
    (changeAll t changes)[k]? = t[k]?.map (changed changes k) := by
  induction changes generalizing t with
  | nil =>
      change t[k]? = t[k]?.map (changed [] k)
      cases t[k]? <;> rfl
  | cons c changes ih =>
      change (changeAll (t.modify c.1 c.2) changes)[k]? = _
      rw [ih, Std.ExtTreeMap.getElem?_modify]
      by_cases hk : c.1 = k
      · subst k
        cases t[c.1]? <;> simp [changed]
      · cases t[k]? <;> simp [changed, hk]

theorem changeAll_eq_self_iff' (t : Std.ExtTreeMap κ ν) (changes : List (κ × (ν → ν))) :
    changeAll t changes = t ↔ ∀ k v, t[k]? = some v → changed changes k v = v := by
  constructor
  · intro h k v hv
    have hk := getElem?_changeAll t changes k
    rw [h, hv] at hk
    exact (Option.some.inj hk).symm
  · intro h
    ext1 k
    rw [getElem?_changeAll]
    cases hv : t[k]? with
    | none => rfl
    | some v => exact congrArg some (h k v hv)

variable {key : ε → κ}

theorem changeAll_undo_eq_self_iff (t : Std.ExtTreeMap κ ν) (es more : List ε)
    (hnodup : ((es ++ more).map key).Nodup) (change undo : ε → ν → ν) :
    changeAll t ((es.map fun e => (key e, change e)) ++
        (es ++ more).map fun e => (key e, undo e)) = t ↔
      (∀ e ∈ es, ∀ v, t[key e]? = some v → undo e (change e v) = v) ∧
        ∀ e ∈ more, ∀ v, t[key e]? = some v → undo e v = v := by
  have hkeys : ∀ (g : ε → ν → ν) (es : List ε),
      (es.map fun e => (key e, g e)).map Prod.fst = es.map key := by
    simp
  rw [List.map_append] at hnodup
  obtain ⟨hes, -, hdisjoint⟩ := List.nodup_append.mp hnodup
  rw [← List.map_append] at hnodup
  have hdo : ∀ e ∈ es, ∀ v, changed (es.map fun e => (key e, change e)) (key e) v = change e v :=
    fun e he => changed_of_mem ((hkeys change es).symm ▸ hes)
      (List.mem_map_of_mem (f := fun e => (key e, change e)) he)
  have hundo : ∀ e ∈ es ++ more, ∀ v,
      changed ((es ++ more).map fun e => (key e, undo e)) (key e) v = undo e v :=
    fun e he => changed_of_mem ((hkeys undo (es ++ more)).symm ▸ hnodup)
      (List.mem_map_of_mem (f := fun e => (key e, undo e)) he)
  have hmore : ∀ e ∈ more, ∀ v, changed (es.map fun e => (key e, change e)) (key e) v = v := by
    intro e he
    apply changed_of_not_mem
    rw [hkeys]
    exact fun hmem => hdisjoint _ hmem _ (List.mem_map_of_mem he) rfl
  simp only [changeAll_eq_self_iff', changed_append]
  constructor
  · intro h
    constructor
    · intro e he v hv
      have hk := h (key e) v hv
      rwa [hdo e he, hundo e (List.mem_append_left more he)] at hk
    · intro e he v hv
      have hk := h (key e) v hv
      rwa [hmore e he, hundo e (List.mem_append_right es he)] at hk
  · rintro ⟨hfirst, hsecond⟩ k v hv
    by_cases hk : k ∈ (es ++ more).map key
    · obtain ⟨e, he, rfl⟩ := List.mem_map.mp hk
      rw [hundo e he]
      obtain he | he := List.mem_append.mp he
      · rw [hdo e he]
        exact hfirst e he v hv
      · rw [hmore e he]
        exact hsecond e he v hv
    · have hfirst : k ∉ (es.map fun e => (key e, change e)).map Prod.fst := by
        rw [hkeys]
        rw [List.map_append] at hk
        exact fun hmem => hk (List.mem_append_left _ hmem)
      have hsecond : k ∉ ((es ++ more).map fun e => (key e, undo e)).map Prod.fst := by
        rw [hkeys]
        exact hk
      rw [changed_of_not_mem hfirst, changed_of_not_mem hsecond]

theorem changeAll_eq_self_iff (t : Std.ExtTreeMap κ ν) {es : List ε}
    (hnodup : (es.map key).Nodup) (change : ε → ν → ν) :
    changeAll t (es.map fun e => (key e, change e)) = t ↔
      ∀ e ∈ es, ∀ v, t[key e]? = some v → change e v = v := by
  have hundo := changeAll_undo_eq_self_iff t [] es hnodup (fun _ v => v) change
  simpa using hundo

/-! ### Insertions and erasures -/

section Loops

variable {t : Std.ExtTreeMap κ ν}

omit [DecidableEq κ] [Std.LawfulEqOrd κ] in
theorem nodup_keys_toList (t : Std.ExtTreeMap κ ν) : (t.toList.map Prod.fst).Nodup := by
  rw [Std.ExtTreeMap.map_fst_toList_eq_keys]
  exact Std.ExtTreeMap.nodup_keys

omit [DecidableEq κ] [Std.LawfulEqOrd κ] in
theorem pairwise_ne_toList (t : Std.ExtTreeMap κ ν) :
    t.toList.Pairwise fun a b => a.1 ≠ b.1 := List.pairwise_map.mp (nodup_keys_toList t)

omit [DecidableEq κ] in
theorem getElem?_insertAll_of_not_mem {items : List ε} {key : ε → κ} {k : κ}
    (h : k ∉ items.map key) (value : ε → ν) :
    (items.foldl (fun t item => t.insert (key item) (value item)) t)[k]? = t[k]? := by
  induction items generalizing t with
  | nil => rfl
  | cons item items ih =>
      simp only [List.map_cons, List.mem_cons, not_or] at h
      rw [List.foldl_cons, ih h.2, Std.ExtTreeMap.getElem?_insert]
      simp [Ne.symm h.1]

omit [DecidableEq κ] in
theorem getElem?_insertAll_of_mem {items : List ε} {key : ε → κ}
    (hnodup : (items.map key).Nodup) (value : ε → ν) {item : ε} (h : item ∈ items) :
    (items.foldl (fun t item => t.insert (key item) (value item)) t)[key item]? =
      some (value item) := by
  induction items generalizing t with
  | nil => cases h
  | cons item' items ih =>
      obtain ⟨hitem', hrest⟩ := List.nodup_cons.mp hnodup
      obtain rfl | h := List.mem_cons.mp h
      · rw [List.foldl_cons, getElem?_insertAll_of_not_mem hitem']
        simp
      · exact ih hrest h

/-- An insertion of a new key leaves an entry that is there alone. -/
theorem getElem?_insertIfNew_eq (key k : κ) (value : ν) :
    (t.insertIfNew key value)[k]? = if k = key then t[key]?.or (some value) else t[k]? := by
  rw [Std.ExtTreeMap.getElem?_insertIfNew]
  by_cases hk : k = key
  · subst k
    cases hkey : t[key]? with
    | none =>
        have hnew : key ∉ t := by
          rw [Std.ExtTreeMap.mem_iff_isSome_getElem?, hkey]
          simp
        simp [hnew]
    | some kept =>
        have hmem : key ∈ t := by
          rw [Std.ExtTreeMap.mem_iff_isSome_getElem?, hkey]
          simp
        simp [hmem]
  · simp [hk, Ne.symm hk]

theorem getElem?_eraseAll (keys : List κ) (k : κ) :
    (keys.foldl (fun t key => t.erase key) t)[k]? = if k ∈ keys then none else t[k]? := by
  induction keys generalizing t with
  | nil => rfl
  | cons key keys ih =>
      rw [List.foldl_cons, ih, Std.ExtTreeMap.getElem?_erase]
      by_cases hk : k = key
      · simp [hk]
      · simp [hk, Ne.symm hk]

end Loops

end Osquery.Foundation.Changes
