import Mathlib.Data.List.Nodup

/-!
# Maps with a limited number of entries

After an entry is put into the map, the first one goes when there are too many. An entry is
then there exactly when it was put there or there before, and is not the one that goes.
-/

namespace Osquery.Foundation.LimitedMaps

variable {κ ν : Type*} [Ord κ] [Std.TransOrd κ]

def limited (limit : ℕ) (t : Std.ExtTreeMap κ ν) : Std.ExtTreeMap κ ν :=
  if t.size > limit then
    match t.minKey? with
    | none => t
    | some first => t.erase first
  else t

def insertLimited (limit : ℕ) (t : Std.ExtTreeMap κ ν) (k : κ) (v : ν) : Std.ExtTreeMap κ ν :=
  limited limit (t.insert k v)

/-- The entry of `j` goes when one is put at `k`: the map gets too large, and no key is
before `j`. -/
structure Displaces (limit : ℕ) (t : Std.ExtTreeMap κ ν) (k j : κ) : Prop where
  full : limit < t.size ∨ k ∉ t ∧ limit = t.size
  present : j = k ∨ j ∈ t
  first : (compare j k).isLE ∧ ∀ l ∈ t, (compare j l).isLE

/-- A map that is not full displaces nothing. -/
theorem not_displaces {limit : ℕ} {t : Std.ExtTreeMap κ ν} {k : κ}
    (h : k ∈ t ∧ t.size ≤ limit ∨ t.size < limit) (j : κ) : ¬Displaces limit t k j := by
  intro hdisplaces
  obtain hfull | ⟨hk, hfull⟩ := hdisplaces.full
  · omega
  · obtain ⟨hmem, _⟩ | hlt := h
    · exact hk hmem
    · omega

theorem lt_size_insert_iff {limit : ℕ} {t : Std.ExtTreeMap κ ν} {k : κ} (v : ν) :
    limit < (t.insert k v).size ↔ limit < t.size ∨ k ∉ t ∧ limit = t.size := by
  rw [Std.ExtTreeMap.size_insert]
  by_cases hk : k ∈ t
  · simp [hk]
  · simp only [Std.ExtTreeMap.contains_iff_mem, hk, if_false, not_false_eq_true, true_and]
    omega

/-- A map within its limit stays there. -/
theorem size_insertLimited_le {limit : ℕ} {t : Std.ExtTreeMap κ ν} (h : t.size ≤ limit) (k : κ)
    (v : ν) : (insertLimited limit t k v).size ≤ limit := by
  have hinsert : (t.insert k v).size ≤ limit + 1 := by
    rw [Std.ExtTreeMap.size_insert]
    split <;> omega
  rw [insertLimited, limited]
  split
  · next hfull =>
      cases hfirst : (t.insert k v).minKey? with
      | none =>
          rw [Std.ExtTreeMap.minKey?_eq_none_iff] at hfirst
          rw [hfirst]
          simp
      | some first =>
          have hmem : first ∈ t.insert k v := Std.ExtTreeMap.minKey?_mem hfirst
          rw [Std.ExtTreeMap.size_erase, if_pos (Std.ExtTreeMap.contains_iff_mem.mpr hmem)]
          omega
  · omega

/-- A map with room gets one more entry. -/
theorem insertLimited_of_room {limit : ℕ} {t : Std.ExtTreeMap κ ν} {k : κ} (h : t.size < limit)
    (v : ν) : insertLimited limit t k v = t.insert k v := by
  have hsize : ¬(t.insert k v).size > limit := by
    rw [Std.ExtTreeMap.size_insert]
    split <;> omega
  rw [insertLimited, limited, if_neg hsize]

variable [Std.LawfulEqOrd κ]

theorem displaces_iff {limit : ℕ} {t : Std.ExtTreeMap κ ν} {k j : κ} (v : ν) :
    Displaces limit t k j ↔
      limit < (t.insert k v).size ∧ (t.insert k v).minKey? = some j := by
  rw [lt_size_insert_iff, Std.ExtTreeMap.minKey?_eq_some_iff_mem_and_forall]
  simp only [Std.ExtTreeMap.mem_insert, Std.LawfulEqOrd.compare_eq_iff_eq]
  constructor
  · rintro ⟨hfull, hpresent, hk, hfirst⟩
    refine ⟨hfull, hpresent.imp_left Eq.symm, ?_⟩
    rintro l (rfl | hl)
    · exact hk
    · exact hfirst l hl
  · rintro ⟨hfull, hpresent, hfirst⟩
    exact ⟨hfull, hpresent.imp_left Eq.symm, hfirst k (.inl rfl), fun l hl => hfirst l (.inr hl)⟩

/-- What is in the map after an entry was put into it. -/
theorem getElem?_insertLimited_eq_some_iff {limit : ℕ} {t : Std.ExtTreeMap κ ν} {k j : κ}
    {v w : ν} :
    (insertLimited limit t k v)[j]? = some w ↔
      ¬Displaces limit t k j ∧ (t.insert k v)[j]? = some w := by
  rw [displaces_iff v, insertLimited, limited]
  split
  · next hfull =>
      rw [and_iff_right hfull]
      cases hfirst : (t.insert k v).minKey? with
      | none => simp
      | some first =>
          rw [Std.ExtTreeMap.getElem?_erase]
          by_cases hj : first = j
          · subst hj
            simp
          · simp [hj]
  · next hroom => simp [hroom]

theorem getElem?_insertLimited_self {limit : ℕ} {t : Std.ExtTreeMap κ ν} {k : κ}
    (h : ¬Displaces limit t k k) (v : ν) : (insertLimited limit t k v)[k]? = some v :=
  getElem?_insertLimited_eq_some_iff.mpr ⟨h, Std.ExtTreeMap.getElem?_insert_self⟩

/-- What was there or was put there is gone exactly when it was displaced. -/
theorem not_mem_insertLimited_iff {limit : ℕ} {t : Std.ExtTreeMap κ ν} {k j : κ} (v : ν)
    (hj : j = k ∨ j ∈ t) : j ∉ insertLimited limit t k v ↔ Displaces limit t k j := by
  have hinsert : j ∈ t.insert k v := by
    rw [Std.ExtTreeMap.mem_insert, Std.LawfulEqOrd.compare_eq_iff_eq]
    exact hj.imp_left Eq.symm
  have hvalue := Std.ExtTreeMap.getElem?_eq_some_getElem hinsert
  rw [← not_iff_not, not_not, Std.ExtTreeMap.mem_iff_isSome_getElem?, Option.isSome_iff_exists]
  simp only [getElem?_insertLimited_eq_some_iff, hvalue, exists_and_left, Option.some.injEq,
    exists_eq', and_true]

theorem mem_of_mem_insertLimited {limit : ℕ} {t : Std.ExtTreeMap κ ν} {k j : κ} {v : ν}
    (h : j ∈ insertLimited limit t k v) : j = k ∨ j ∈ t := by
  rw [Std.ExtTreeMap.mem_iff_isSome_getElem?, Option.isSome_iff_exists] at h
  obtain ⟨w, hw⟩ := h
  have hinsert := (getElem?_insertLimited_eq_some_iff.mp hw).2
  have hmem : j ∈ t.insert k v := by
    rw [Std.ExtTreeMap.mem_iff_isSome_getElem?, hinsert]
    rfl
  rw [Std.ExtTreeMap.mem_insert, Std.LawfulEqOrd.compare_eq_iff_eq] at hmem
  exact hmem.imp_left Eq.symm

end Osquery.Foundation.LimitedMaps

/-!
## Limited maps and the order of creation

A map with a limited number of entries removes the one whose key is first. Beside the map its
keys are kept in the order in which their entries were created, so that one can say when the
entry that is removed is the oldest one.
-/

namespace Osquery.Foundation.CreationOrder

open LimitedMaps

variable {κ ν : Type*} [Ord κ] [Std.TransOrd κ]

/-- A map within its limit, and its keys, of which the one created least recently is first. -/
structure Dated (limit : ℕ) (κ ν : Type*) [Ord κ] [Std.TransOrd κ] where
  entries : Std.ExtTreeMap κ ν
  created : List κ
  mem_created : ∀ k, k ∈ created ↔ k ∈ entries
  size_le : entries.size ≤ limit

namespace Dated

variable {limit : ℕ}

def empty : Dated limit κ ν where
  entries := ∅
  created := []
  mem_created k := by simp
  size_le := by simp

theorem size_empty : (empty : Dated limit κ ν).entries.size = 0 := Std.ExtTreeMap.size_empty

/-- The keys with one that was put into the map. -/
def creation (d : Dated limit κ ν) (k : κ) : List κ :=
  if k ∈ d.entries then d.created else d.created ++ [k]

/-- The map after an entry was put at a key, which others may have been removed for. -/
def put (d : Dated limit κ ν) (k : κ) (after : Std.ExtTreeMap κ ν)
    (hmem : ∀ j ∈ after, j = k ∨ j ∈ d.entries) (hsize : after.size ≤ limit) :
    Dated limit κ ν where
  entries := after
  created := (d.creation k).filter fun j => decide (j ∈ after)
  mem_created j := by
    have hcreation : j ∈ after → j ∈ d.creation k := by
      intro hj
      rw [creation]
      split
      · next hk =>
          rcases hmem j hj with rfl | hj
          · exact (d.mem_created j).mpr hk
          · exact (d.mem_created j).mpr hj
      · rw [List.mem_append, List.mem_singleton, d.mem_created, or_comm]
        exact hmem j hj
    rw [List.mem_filter, decide_eq_true_eq]
    exact and_iff_right_of_imp hcreation
  size_le := hsize

/-- Of the entries that were there or were put there, one that is gone is the oldest. -/
def EvictsOldest (d : Dated limit κ ν) (k : κ) (after : Std.ExtTreeMap κ ν) : Prop :=
  ∀ j, j = k ∨ j ∈ d.entries → j ∉ after → (d.creation k).head? = some j

/-- The entry that one at the key displaces is the oldest in the map. -/
def OldestDisplaced (d : Dated limit κ ν) (k : κ) : Prop :=
  ∀ j, Displaces limit d.entries k j → d.created.head? = some j

/-- A new entry that is kept displaces an old one only. -/
theorem head?_creation {d : Dated limit κ ν} {k j : κ} (hj : j ∈ d.entries) :
    (d.creation k).head? = some j ↔ d.created.head? = some j := by
  have hne := List.ne_nil_of_mem ((d.mem_created j).mpr hj)
  rw [creation]
  split
  · exact Iff.rfl
  · rw [List.head?_append_of_ne_nil _ hne]

theorem not_mem_of_displaces {d : Dated limit κ ν} {k j : κ}
    (h : Displaces limit d.entries k j) : k ∉ d.entries := by
  have hsize := d.size_le
  rcases h.full with hlt | ⟨hk, -⟩
  · omega
  · exact hk

variable [Std.LawfulEqOrd κ]

/-- The entry that was put there is kept and an entry that is gone is the oldest exactly when
the oldest entry is displaced. -/
theorem keeps_iff {d : Dated limit κ ν} {k : κ} {after : Std.ExtTreeMap κ ν} (v : ν)
    (hafter : ∀ j, j ∈ after ↔ j ∈ insertLimited limit d.entries k v) :
    k ∈ after ∧ EvictsOldest d k after ↔ OldestDisplaced d k := by
  have hgone : ∀ j, j = k ∨ j ∈ d.entries → (j ∉ after ↔ Displaces limit d.entries k j) := by
    intro j hj
    rw [hafter]
    exact not_mem_insertLimited_iff v hj
  constructor
  · rintro ⟨hkept, holdest⟩ j hdisplaces
    have hpresent := hdisplaces.present
    have hjgone := (hgone j hpresent).mpr hdisplaces
    have hj : j ∈ d.entries := by
      rcases hpresent with rfl | hj
      · exact absurd hkept hjgone
      · exact hj
    exact (head?_creation hj).mp (holdest j hpresent hjgone)
  · intro holdest
    have hcreated : ∀ j, Displaces limit d.entries k j → j ∈ d.entries := fun j hdisplaces =>
      (d.mem_created j).mp (List.mem_of_mem_head? (holdest j hdisplaces))
    constructor
    · by_contra hkgone
      have hdisplaces := (hgone k (Or.inl rfl)).mp hkgone
      exact not_mem_of_displaces hdisplaces (hcreated k hdisplaces)
    · intro j hpresent hjgone
      have hdisplaces := (hgone j hpresent).mp hjgone
      exact (head?_creation (hcreated j hdisplaces)).mpr (holdest j hdisplaces)

end Dated

end Osquery.Foundation.CreationOrder
