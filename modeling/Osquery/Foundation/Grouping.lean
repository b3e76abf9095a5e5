import Mathlib.Data.List.Sort
import Mathlib.Data.List.Induction

/-!
# Lists grouped by a key

The keys of a list in the order of their first occurrence, and the elements
with a given key in list order. Appending elements of one key adds at most that
key at the end; removing all elements of some keys removes these keys and
leaves the other groups alone. Sequences that are merged are the groups of the merge,
when each of them has a key of its own.
-/

namespace Osquery.Foundation.Grouping

variable {α κ : Type} [DecidableEq κ] (key : α → κ)

/-- The keys that occur, each once, in the order of their first occurrence. -/
def keys (l : List α) : List κ := (l.map key).eraseDups

/-- The elements with a key. -/
def group (l : List α) (k : κ) : List α := l.filter fun a => key a = k

@[simp] theorem keys_nil : keys key [] = [] := rfl

@[simp] theorem mem_keys {l : List α} {k : κ} : k ∈ keys key l ↔ ∃ a ∈ l, key a = k := by
  rw [keys, List.mem_eraseDups, List.mem_map]

@[simp] theorem mem_group {l : List α} {k : κ} {a : α} : a ∈ group key l k ↔ a ∈ l ∧ key a = k := by
  simp [group]

theorem group_ne_nil_iff {l : List α} {k : κ} : group key l k ≠ [] ↔ k ∈ keys key l := by
  rw [group, ne_eq, List.filter_eq_nil_iff, mem_keys]
  simp

/-- One more element adds its key unless it is there. -/
theorem keys_concat (l : List α) (a : α) :
    keys key (l ++ [a]) = if key a ∈ keys key l then keys key l else keys key l ++ [key a] := by
  have hmem : key a ∈ keys key l ↔ key a ∈ l.map key := by rw [keys, List.mem_eraseDups]
  rw [keys, List.map_append, List.eraseDups_append, List.map_singleton]
  by_cases h : key a ∈ l.map key
  · have hrem : [key a].removeAll (l.map key) = [] := by
      rw [List.removeAll, List.filter_cons_of_neg (by simpa using h), List.filter_nil]
    rw [if_pos (hmem.mpr h), hrem, List.eraseDups_nil, List.append_nil]
    rfl
  · have hrem : [key a].removeAll (l.map key) = [key a] := by
      rw [List.removeAll, List.filter_cons_of_pos (by simpa using h), List.filter_nil]
    rw [if_neg (hmem.not.mpr h), hrem]
    rfl

theorem nodup_keys (l : List α) : (keys key l).Nodup := by
  induction l using List.reverseRecOn with
  | nil => exact List.nodup_nil
  | append_singleton l a ih =>
      rw [keys_concat]
      split
      · exact ih
      · rename_i h
        exact List.nodup_append.mpr ⟨ih, List.nodup_singleton _, by
          intro x hx y hy hxy
          rw [List.mem_singleton.mp hy] at hxy
          exact h (hxy ▸ hx)⟩

/-- Appending elements of one key. -/
theorem keys_append_same {l new : List α} {k : κ} (hnew : ∀ a ∈ new, key a = k) (hne : new ≠ []) :
    keys key (l ++ new) = if k ∈ keys key l then keys key l else keys key l ++ [k] := by
  induction new using List.reverseRecOn with
  | nil => exact absurd rfl hne
  | append_singleton new a ih =>
      have ha : key a = k := hnew a (by simp)
      rw [← List.append_assoc, keys_concat, ha]
      by_cases hnil : new = []
      · subst hnil
        rw [List.append_nil]
      · rw [ih (fun b hb => hnew b (by simp [hb])) hnil]
        by_cases hk : k ∈ keys key l
        · rw [if_pos hk, if_pos hk]
        · rw [if_neg hk, if_pos (by simp)]

theorem keys_filter (p : κ → Bool) (l : List α) :
    keys key (l.filter fun a => p (key a)) = (keys key l).filter p := by
  induction l using List.reverseRecOn with
  | nil => rfl
  | append_singleton l a ih =>
      rw [List.filter_append, keys_concat]
      by_cases hp : p (key a) = true
      · rw [List.filter_cons_of_pos (by simpa using hp), List.filter_nil, keys_concat, ih]
        have hmem : key a ∈ (keys key l).filter p ↔ key a ∈ keys key l := by
          rw [List.mem_filter]
          exact and_iff_left hp
        by_cases h : key a ∈ keys key l
        · rw [if_pos h, if_pos (hmem.mpr h)]
        · rw [if_neg h, if_neg (hmem.not.mpr h), List.filter_append]
          simp [hp]
      · rw [List.filter_cons_of_neg (by simpa using hp), List.filter_nil, List.append_nil, ih]
        split
        · rfl
        · rw [List.filter_append]
          simp [hp]

theorem group_append (l new : List α) (k : κ) :
    group key (l ++ new) k = group key l k ++ group key new k := by
  rw [group, List.filter_append]
  rfl

theorem group_eq_self {new : List α} {k : κ} (hnew : ∀ a ∈ new, key a = k) :
    group key new k = new := by
  rw [group, List.filter_eq_self]
  intro a ha
  simpa using hnew a ha

theorem group_eq_nil {new : List α} {k k' : κ} (hnew : ∀ a ∈ new, key a = k) (hk : k ≠ k') :
    group key new k' = [] := by
  rw [group, List.filter_eq_nil_iff]
  intro a ha
  simpa [hnew a ha] using hk

theorem group_filter (p : κ → Bool) (l : List α) (k : κ) :
    group key (l.filter fun a => p (key a)) k = if p k then group key l k else [] := by
  rw [group, List.filter_filter]
  split
  · rename_i hp
    apply List.filter_congr
    intro a _
    by_cases h : key a = k
    · simp [h, hp]
    · simp [h]
  · rename_i hp
    rw [List.filter_eq_nil_iff]
    intro a _
    by_cases h : key a = k
    · simpa [h] using hp
    · simp [h]

/-- The groups of keys that cover a list are a rearrangement of it. -/
theorem flatMap_group_perm {ks : List κ} {l : List α} (hks : ks.Nodup)
    (hcover : ∀ a ∈ l, key a ∈ ks) : (ks.flatMap (group key l)).Perm l := by
  induction ks generalizing l with
  | nil =>
      have hl : l = [] := List.eq_nil_iff_forall_not_mem.mpr fun a ha =>
        List.not_mem_nil (hcover a ha)
      rw [hl]
      exact List.Perm.nil
  | cons k ks ih =>
      obtain ⟨hk, hks⟩ := List.nodup_cons.mp hks
      have hgroup : ∀ k' ∈ ks, group key l k' =
          group key (l.filter fun a => decide (key a ≠ k)) k' := by
        intro k' hk'
        have hne : k' ≠ k := fun h => hk (h ▸ hk')
        rw [group_filter key (fun x => decide (x ≠ k)), if_pos (by simpa using hne)]
      have hrest := ih (l := l.filter fun a => decide (key a ≠ k)) hks (by
        intro a ha
        rw [List.mem_filter] at ha
        have hne : key a ≠ k := by simpa using ha.2
        exact (List.mem_cons.mp (hcover a ha.1)).resolve_left hne)
      have hmap : ks.flatMap (group key l) =
          ks.flatMap (group key (l.filter fun a => decide (key a ≠ k))) :=
        List.flatMap_congr hgroup
      rw [List.flatMap_cons, hmap]
      refine (List.Perm.append_left _ hrest).trans ?_
      have hperm := List.filter_append_perm (fun a => decide (key a = k)) l
      simpa [group] using hperm

/-- Groups taken in an order that a relation on the elements respects give the
list back, when the list respects the relation too. -/
theorem flatMap_group_eq {r : α → α → Prop} {ks : List κ} {l : List α}
    (hr : ∀ a b, r a b → ¬r b a) (hks : ks.Nodup) (hcover : ∀ a ∈ l, key a ∈ ks)
    (hl : l.Pairwise r)
    (hcross : ks.Pairwise fun k k' => ∀ a ∈ group key l k, ∀ b ∈ group key l k', r a b) :
    ks.flatMap (group key l) = l := by
  refine (flatMap_group_perm key hks hcover).eq_of_pairwise ?_ ?_ hl
  · intro a b _ _ hab hba
    exact absurd hba (hr a b hab)
  · rw [List.pairwise_flatMap]
    exact ⟨fun k _ => hl.filter _, hcross⟩

/-- Entries of other keys contribute nothing to the group of a key. -/
theorem group_flatMap_eq_nil {β : Type} {f : β → List α} {entries : List (κ × β)} {k : κ}
    (hne : ∀ e ∈ entries, e.1 ≠ k) :
    group Prod.fst (entries.flatMap fun e => (f e.2).map (Prod.mk e.1)) k = [] := by
  rw [← not_ne_iff, ne_eq, ← ne_eq, group_ne_nil_iff, mem_keys]
  rintro ⟨item, hitem, hkey⟩
  obtain ⟨e, he, hitem⟩ := List.mem_flatMap.mp hitem
  obtain ⟨a, -, rfl⟩ := List.mem_map.mp hitem
  exact hne e he hkey

/-! ### Merged sequences -/

/-- The elements of some sequences in an order that keeps the order of each sequence. -/
inductive Merge {ι : Type} [DecidableEq ι] : (ι → List α) → List α → Prop
  | nil {seqs : ι → List α} (h : ∀ i, seqs i = []) : Merge seqs []
  | cons {seqs : ι → List α} {rest : List α} (i : ι) {a : α} {tail : List α}
      (h : seqs i = a :: tail) (hrest : Merge (Function.update seqs i tail) rest) :
      Merge seqs (a :: rest)

variable {ι : Type} [DecidableEq ι]

theorem Merge.mem_iff {seqs : ι → List α} {l : List α} (h : Merge seqs l) (a : α) :
    a ∈ l ↔ ∃ i, a ∈ seqs i := by
  induction h with
  | nil h => simp [h]
  | cons i h _ ih =>
      rw [List.mem_cons, ih]
      constructor
      · rintro (rfl | ⟨j, hj⟩)
        · exact ⟨i, by simp [h]⟩
        · by_cases hij : j = i
          · subst hij
            rw [Function.update_self] at hj
            exact ⟨j, by simp [h, hj]⟩
          · rw [Function.update_of_ne hij] at hj
            exact ⟨j, hj⟩
      · rintro ⟨j, hj⟩
        by_cases hij : j = i
        · subst hij
          rw [h, List.mem_cons] at hj
          obtain rfl | hj := hj
          · exact Or.inl rfl
          · right
            exact ⟨j, by rwa [Function.update_self]⟩
        · right
          exact ⟨j, by rwa [Function.update_of_ne hij]⟩

/-- The groups of a merge of sequences with keys of their own are the sequences. -/
theorem Merge.group_eq {seqs : ι → List α} {l : List α} (h : Merge seqs l) {k : ι → κ}
    (hk : Function.Injective k) (hkey : ∀ i, ∀ a ∈ seqs i, key a = k i) (i : ι) :
    group key l (k i) = seqs i := by
  induction h with
  | nil h => simp [group, h]
  | @cons seqs rest j a tail h _ ih =>
      have htail : ∀ i, ∀ b ∈ Function.update seqs j tail i, key b = k i := by
        intro i b hb
        by_cases hij : i = j
        · subst hij
          rw [Function.update_self] at hb
          exact hkey i b (by simp [h, hb])
        · rw [Function.update_of_ne hij] at hb
          exact hkey i b hb
      have ha : key a = k j := hkey j a (by simp [h])
      by_cases hij : i = j
      · subst hij
        rw [group, List.filter_cons_of_pos (by simpa using ha), h]
        congr 1
        exact (ih htail).trans (Function.update_self ..)
      · have hne : key a ≠ k i := by
          rw [ha]
          exact fun heq => hij (hk heq).symm
        rw [group, List.filter_cons_of_neg (by simpa using hne)]
        exact (ih htail).trans (Function.update_of_ne hij ..)

end Osquery.Foundation.Grouping
