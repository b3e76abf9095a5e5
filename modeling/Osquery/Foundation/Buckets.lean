import Osquery.Foundation.Changes
import Osquery.Foundation.Grouping
import Std.Data.ExtTreeMap

/-!
# Maps of lists

A map whose values are lists, filled by appending one item at a time under its key. The list of
a key is the group of the items with that key, and a walk over the selected keys passes every
item with such a key once. When the entries of a map each contribute items of their key, the
group of a key is what its entry contributes.
-/

namespace Osquery.Foundation.Buckets

open Changes Grouping

variable {κ α β : Type} [Ord κ] [Std.TransOrd κ] [Std.LawfulEqOrd κ]

/-- Append an item to the list of its key. -/
def pushBack (map : Std.ExtTreeMap κ (List α)) (k : κ) (a : α) : Std.ExtTreeMap κ (List α) :=
  map.insert k (map.getD k [] ++ [a])

def fill (items : List (κ × α)) (map : Std.ExtTreeMap κ (List α)) : Std.ExtTreeMap κ (List α) :=
  items.foldl (fun map item => pushBack map item.1 item.2) map

theorem getD_pushBack [DecidableEq κ] (map : Std.ExtTreeMap κ (List α)) (k k' : κ) (a : α) :
    (pushBack map k a).getD k' [] = if k = k' then map.getD k' [] ++ [a] else map.getD k' [] := by
  rw [pushBack, Std.ExtTreeMap.getD_insert]
  by_cases h : k = k'
  · subst h
    rw [if_pos Std.compare_self, if_pos rfl]
  · rw [if_neg (Std.compare_eq_iff_eq.not.mpr h), if_neg h]

theorem mem_pushBack {map : Std.ExtTreeMap κ (List α)} {k k' : κ} {a : α} :
    k' ∈ pushBack map k a ↔ k = k' ∨ k' ∈ map := by
  rw [pushBack, Std.ExtTreeMap.mem_insert, Std.compare_eq_iff_eq]

theorem mem_fill {items : List (κ × α)} {map : Std.ExtTreeMap κ (List α)} {k : κ} :
    k ∈ fill items map ↔ k ∈ map ∨ ∃ item ∈ items, item.1 = k := by
  induction items generalizing map with
  | nil => simp [fill]
  | cons item items ih =>
      have hstep : fill (item :: items) map = fill items (pushBack map item.1 item.2) := rfl
      rw [hstep, ih, mem_pushBack]
      simp only [List.mem_cons, exists_eq_or_imp]
      tauto

variable [DecidableEq κ]

theorem getD_fill (items : List (κ × α)) (map : Std.ExtTreeMap κ (List α)) (k : κ) :
    (fill items map).getD k [] = map.getD k [] ++ (group Prod.fst items k).map Prod.snd := by
  induction items generalizing map with
  | nil => exact (List.append_nil _).symm
  | cons item items ih =>
      have hstep : fill (item :: items) map = fill items (pushBack map item.1 item.2) := rfl
      rw [hstep, ih, getD_pushBack]
      by_cases h : item.1 = k
      · have hgroup : group Prod.fst (item :: items) k = item :: group Prod.fst items k :=
          List.filter_cons_of_pos (by simpa using h)
        rw [if_pos h, hgroup, List.append_assoc]
        rfl
      · have hgroup : group Prod.fst (item :: items) k = group Prod.fst items k :=
          List.filter_cons_of_neg (by simpa using h)
        rw [if_neg h, hgroup]

/-- The lists of the selected keys contain the items with these keys. -/
theorem flatMap_fill_perm (items : List (κ × α)) (p : κ → Bool) :
    (((fill items ∅).toList.filter fun e => p e.1).flatMap Prod.snd).Perm
      ((items.filter fun item => p item.1).map Prod.snd) := by
  have hentry : ∀ e ∈ (fill items ∅).toList, e.2 = (group Prod.fst items e.1).map Prod.snd := by
    intro e he
    have hget : (fill items ∅)[e.1]? = some e.2 :=
      Std.ExtTreeMap.mem_toList_iff_getElem?_eq_some.mp he
    have hfill := getD_fill items ∅ e.1
    rw [Std.ExtTreeMap.getD_eq_getD_getElem?, hget, Std.ExtTreeMap.getD_empty] at hfill
    simpa using hfill
  have hcover : ∀ item ∈ items.filter (fun item => p item.1),
      item.1 ∈ (fill items ∅).keys.filter p := by
    intro item hitem
    rw [List.mem_filter] at hitem
    rw [List.mem_filter, Std.ExtTreeMap.mem_keys, mem_fill]
    exact ⟨Or.inr ⟨item, hitem.1, rfl⟩, hitem.2⟩
  have hgroup : ∀ k ∈ (fill items ∅).keys.filter p,
      group Prod.fst (items.filter fun item => p item.1) k = group Prod.fst items k := by
    intro k hk
    rw [group_filter, if_pos (List.mem_filter.mp hk).2]
  have hflat : ((fill items ∅).toList.filter fun e => p e.1).flatMap Prod.snd =
      (((fill items ∅).keys.filter p).flatMap
        (group Prod.fst (items.filter fun item => p item.1))).map Prod.snd := by
    calc ((fill items ∅).toList.filter fun e => p e.1).flatMap Prod.snd
        = ((fill items ∅).toList.filter fun e => p e.1).flatMap
            (fun e => (group Prod.fst items e.1).map Prod.snd) :=
          List.flatMap_congr fun e he => hentry e (List.mem_filter.mp he).1
      _ = ((fill items ∅).keys.filter p).flatMap
            (fun k => (group Prod.fst items k).map Prod.snd) := by
          rw [← Std.ExtTreeMap.map_fst_toList_eq_keys, List.filter_map, List.flatMap_map]
          rfl
      _ = (((fill items ∅).keys.filter p).flatMap
            (group Prod.fst (items.filter fun item => p item.1))).map Prod.snd := by
          rw [List.map_flatMap]
          exact List.flatMap_congr fun k hk => by rw [hgroup k hk]
  rw [hflat]
  exact (flatMap_group_perm Prod.fst (Std.ExtTreeMap.nodup_keys.filter p) hcover).map Prod.snd

/-! ### Entries that contribute items -/

omit [Ord κ] [Std.TransOrd κ] [Std.LawfulEqOrd κ] [DecidableEq κ] in
theorem flatMap_filter (p : β → Bool) (f : β → List α) (l : List β) :
    (l.filter p).flatMap f = l.flatMap fun a => if p a then f a else [] := by
  induction l with
  | nil => rfl
  | cons a l ih =>
      by_cases h : p a = true
      · rw [List.filter_cons_of_pos h, List.flatMap_cons, List.flatMap_cons, ih, if_pos h]
      · rw [List.filter_cons_of_neg h, List.flatMap_cons, ih, if_neg h, List.nil_append]

/-- What the entry of a key contributes, where there is one. -/
theorem group_flatMap_toList (map : Std.ExtTreeMap κ β) (f : β → List α) (k : κ) :
    group Prod.fst (map.toList.flatMap fun e => (f e.2).map (Prod.mk e.1)) k =
      ((map[k]?.map f).getD []).map (Prod.mk k) := by
  have hdistinct := pairwise_ne_toList map
  cases hget : map[k]? with
  | none =>
      refine group_flatMap_eq_nil fun e he heq => ?_
      rw [← heq, Std.ExtTreeMap.mem_toList_iff_getElem?_eq_some.mp he] at hget
      cases hget
  | some v =>
      obtain ⟨before, after, hlist⟩ :=
        List.append_of_mem (Std.ExtTreeMap.mem_toList_iff_getElem?_eq_some.mpr hget)
      rw [hlist] at hdistinct ⊢
      obtain ⟨-, hafter, hcross⟩ := List.pairwise_append.mp hdistinct
      have hbefore : ∀ e ∈ before, e.1 ≠ k := fun e he => hcross e he _ (List.mem_cons_self ..)
      have hrest : ∀ e ∈ after, e.1 ≠ k :=
        fun e he => ((List.pairwise_cons.mp hafter).1 e he).symm
      have hself : group Prod.fst ((f v).map (Prod.mk k)) k = (f v).map (Prod.mk k) :=
        group_eq_self Prod.fst fun item hitem => by
          obtain ⟨a, -, rfl⟩ := List.mem_map.mp hitem
          rfl
      rw [List.flatMap_append, List.flatMap_cons, group_append, group_append,
        group_flatMap_eq_nil hbefore, group_flatMap_eq_nil hrest, hself, List.nil_append,
        List.append_nil]
      rfl

end Osquery.Foundation.Buckets
