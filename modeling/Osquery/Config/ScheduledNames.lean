import Osquery.Config.Pack
import Mathlib.Data.List.Pairwise

/-!
# Names of scheduled queries

The schedule passes every query under one text: the query's own name in the
pack `main`, and the pack's name and the query's name behind a fixed word in
every other pack. The text is the identity of the query for its results, its
counter, its performance record and its blacklist entry, but the delimiter may
occur inside the names, and two sources may define packs of one name.

## Implementation notes

`Recut` says that one text is cut into pack and query at two places. Whether a
query is passed depends on the blacklist and the clock; the names are distinct
at every time and under every blacklist exactly if they are distinct when
nothing is blacklisted.
-/

namespace Osquery.Config

open EventSubscribers (visitQuery scheduledQueries scheduledName Blacklist)

/-! ### The names passed -/

/-- The names of all queries of the packs that execute. -/
def activeNames (delimiter : String) (packs : List EventSubscribers.Pack) : List String :=
  (packs.filter EventSubscribers.Pack.active).flatMap fun p =>
    p.schedule.map fun q => scheduledName delimiter p q.1

theorem visitQuery_names (now : UInt64) (blacklisted : Bool)
    (found : List (String × EventSubscribers.ScheduledQuery) × Blacklist) (name : String)
    (query : EventSubscribers.ScheduledQuery) :
    (visitQuery now blacklisted found name query).1 = found.1 ∨
      (visitQuery now blacklisted found name query).1 = found.1 ++ [(name, query)] := by
  rw [visitQuery]
  split
  · exact Or.inr rfl
  · split_ifs
    · exact Or.inr rfl
    · exact Or.inr rfl
    · exact Or.inl rfl

/-- The queries of one pack extend what was passed by some of their names. -/
theorem foldl_visitQuery_sublist (delimiter : String) (now : UInt64) (blacklisted : Bool)
    (pack : EventSubscribers.Pack) (queries : List (String × EventSubscribers.ScheduledQuery))
    (found : List (String × EventSubscribers.ScheduledQuery) × Blacklist) :
    ∃ names : List String, names.Sublist (queries.map fun q => scheduledName delimiter pack q.1) ∧
      (queries.foldl (fun found it =>
        visitQuery now blacklisted found (scheduledName delimiter pack it.1) it.2) found).1.map
          Prod.fst = found.1.map Prod.fst ++ names := by
  induction queries generalizing found with
  | nil => exact ⟨[], List.Sublist.refl _, (List.append_nil _).symm⟩
  | cons it rest ih =>
      obtain ⟨names, hsub, heq⟩ := ih
        (visitQuery now blacklisted found (scheduledName delimiter pack it.1) it.2)
      rcases visitQuery_names now blacklisted found (scheduledName delimiter pack it.1) it.2 with
        h | h
      · exact ⟨names, hsub.cons _, by rw [List.foldl_cons, heq, h]⟩
      · refine ⟨scheduledName delimiter pack it.1 :: names, hsub.cons_cons _, ?_⟩
        rw [List.foldl_cons, heq, h, List.map_append, List.append_assoc]
        rfl

/-- Under every blacklist only names of active packs are passed, each for one
query. -/
theorem scheduledQueries_sublist (delimiter : String) (now : UInt64) (blacklisted : Bool)
    (schedule : EventSubscribers.Schedule) :
    ((scheduledQueries delimiter now blacklisted schedule).1.map Prod.fst).Sublist
      (activeNames delimiter schedule.packs) := by
  rw [scheduledQueries, activeNames]
  suffices h : ∀ (packs : List EventSubscribers.Pack)
      (found : List (String × EventSubscribers.ScheduledQuery) × Blacklist),
      ∃ names : List String, names.Sublist (packs.flatMap fun p =>
        p.schedule.map fun q => scheduledName delimiter p q.1) ∧
        (packs.foldl (fun found pack => pack.schedule.foldl (fun found it =>
          visitQuery now blacklisted found (scheduledName delimiter pack it.1) it.2) found)
            found).1.map Prod.fst = found.1.map Prod.fst ++ names by
    obtain ⟨names, hsub, heq⟩ := h (schedule.packs.filter EventSubscribers.Pack.active)
      ([], schedule.blacklist)
    rw [heq]
    exact hsub
  intro packs
  induction packs with
  | nil => exact fun found => ⟨[], List.Sublist.refl _, (List.append_nil _).symm⟩
  | cons p rest ih =>
      intro found
      obtain ⟨first, hfirst, heq⟩ :=
        foldl_visitQuery_sublist delimiter now blacklisted p p.schedule found
      obtain ⟨names, hsub, hrest⟩ := ih (p.schedule.foldl (fun found it =>
        visitQuery now blacklisted found (scheduledName delimiter p it.1) it.2) found)
      refine ⟨first ++ names, ?_, ?_⟩
      · rw [List.flatMap_cons]
        exact hfirst.append hsub
      · rw [List.foldl_cons, hrest, heq, List.append_assoc]

/-- With nothing blacklisted every query of the active packs is passed. -/
theorem scheduledQueries_of_empty (delimiter : String) (now : UInt64) (blacklisted : Bool)
    (packs : List EventSubscribers.Pack) :
    (scheduledQueries delimiter now blacklisted ⟨packs, ∅⟩).1.map Prod.fst =
      activeNames delimiter packs := by
  rw [scheduledQueries, activeNames]
  suffices h : ∀ (packs : List EventSubscribers.Pack)
      (found : List (String × EventSubscribers.ScheduledQuery)),
      packs.foldl (fun found pack => pack.schedule.foldl (fun found it =>
        visitQuery now blacklisted found (scheduledName delimiter pack it.1) it.2) found)
          (found, (∅ : Blacklist)) =
        (found ++ packs.flatMap fun p =>
          p.schedule.map fun q => (scheduledName delimiter p q.1, q.2), ∅) by
    rw [h, List.nil_append, List.map_flatMap]
    simp only [List.map_map, Function.comp_def]
  have hpack : ∀ (pack : EventSubscribers.Pack)
      (queries found : List (String × EventSubscribers.ScheduledQuery)),
      queries.foldl (fun found it =>
        visitQuery now blacklisted found (scheduledName delimiter pack it.1) it.2)
          (found, (∅ : Blacklist)) =
        (found ++ queries.map fun q => (scheduledName delimiter pack q.1, q.2), ∅) := by
    intro pack queries
    induction queries with
    | nil => exact fun found => by simp
    | cons it rest ih =>
        intro found
        have hvisit : visitQuery now blacklisted (found, (∅ : Blacklist))
            (scheduledName delimiter pack it.1) it.2 =
              (found ++ [(scheduledName delimiter pack it.1, it.2)], ∅) := by
          simp [visitQuery]
        rw [List.foldl_cons, hvisit, ih, List.map_cons, List.append_assoc]
        rfl
  intro packs
  induction packs with
  | nil => exact fun found => by simp
  | cons p rest ih =>
      intro found
      rw [List.foldl_cons, hpack, ih, List.flatMap_cons, List.append_assoc]

/-! ### Clashes -/

/-- The texts of two pack queries are one text cut at two places: the longer
pack name goes on with what the other query starts with. -/
def Recut (delimiter : String) (pack query pack' query' : String) : Prop :=
  ∃ w : String, w ≠ "" ∧ pack' = pack ++ w ∧ delimiter ++ query = w ++ (delimiter ++ query')

/-- The name of a query of another pack. -/
def packQueryName (delimiter pack query : String) : String :=
  "pack" ++ delimiter ++ pack ++ delimiter ++ query

/-- Two queries that are not told apart: they are called the same in two packs
of one name, or they are cut from one text, or the name of one in the pack
`main` is spelled like the other's. -/
def NameClash (delimiter : String) (pack query pack' query' : String) : Prop :=
  (pack = pack' ∧ query = query') ∨
    (pack ≠ "main" ∧ pack' ≠ "main" ∧
      (Recut delimiter pack query pack' query' ∨ Recut delimiter pack' query' pack query)) ∨
    (pack = "main" ∧ pack' ≠ "main" ∧ query = packQueryName delimiter pack' query') ∨
    (pack ≠ "main" ∧ pack' = "main" ∧ query' = packQueryName delimiter pack query)

theorem packQueryName_eq_iff {delimiter pack query pack' query' : String} :
    packQueryName delimiter pack query = packQueryName delimiter pack' query' ↔
      pack ++ (delimiter ++ query) = pack' ++ (delimiter ++ query') := by
  simp only [packQueryName, String.append_assoc]
  rw [String.append_right_inj, String.append_right_inj]

/-- The second cut stands after the first one, or at the same place. -/
theorem recut_of_append {delimiter pack query pack' query' : String} {w : List Char}
    (hpack : pack'.toList = pack.toList ++ w)
    (hquery : (delimiter ++ query).toList = w ++ (delimiter ++ query').toList) :
    (pack = pack' ∧ query = query') ∨ Recut delimiter pack query pack' query' := by
  have hpack' : pack' = pack ++ String.ofList w := by
    apply String.toList_inj.mp
    rw [hpack, String.toList_append, String.toList_ofList]
  have hquery' : delimiter ++ query = String.ofList w ++ (delimiter ++ query') := by
    apply String.toList_inj.mp
    rw [hquery, @String.toList_append (String.ofList w), String.toList_ofList]
  by_cases hempty : String.ofList w = ""
  · rw [hempty, String.append_empty] at hpack'
    rw [hempty, String.empty_append] at hquery'
    exact Or.inl ⟨hpack'.symm, (String.append_right_inj _).mp hquery'⟩
  · exact Or.inr ⟨String.ofList w, hempty, hpack', hquery'⟩

/-- A text that is cut twice is cut at the same place or recut. -/
theorem append_delimiter_eq_iff {delimiter pack query pack' query' : String} :
    pack ++ (delimiter ++ query) = pack' ++ (delimiter ++ query') ↔
      (pack = pack' ∧ query = query') ∨ Recut delimiter pack query pack' query' ∨
        Recut delimiter pack' query' pack query := by
  constructor
  · intro h
    have hlist : pack.toList ++ (delimiter ++ query).toList =
        pack'.toList ++ (delimiter ++ query').toList := by
      rw [← String.toList_append, h, String.toList_append]
    rcases List.append_eq_append_iff.mp hlist with ⟨w, hpack, hquery⟩ | ⟨w, hpack, hquery⟩
    · rcases recut_of_append hpack hquery with heq | hcut
      · exact Or.inl heq
      · exact Or.inr (Or.inl hcut)
    · rcases recut_of_append hpack hquery with ⟨rfl, rfl⟩ | hcut
      · exact Or.inl ⟨rfl, rfl⟩
      · exact Or.inr (Or.inr hcut)
  · intro h
    rcases h with ⟨rfl, rfl⟩ | ⟨w, -, rfl, h⟩ | ⟨w, -, rfl, h⟩
    · rfl
    · rw [h, String.append_assoc]
    · rw [h, String.append_assoc]

/-- Two queries have one name exactly if they clash. -/
theorem scheduledName_eq_iff (delimiter : String) (p p' : EventSubscribers.Pack)
    (query query' : String) :
    scheduledName delimiter p query = scheduledName delimiter p' query' ↔
      NameClash delimiter p.name query p'.name query' := by
  by_cases hp : p.name = "main" <;> by_cases hp' : p'.name = "main"
  · simp [scheduledName, NameClash, hp, hp']
  · have hne : "main" ≠ p'.name := fun h => hp' h.symm
    simp [scheduledName, NameClash, packQueryName, hp, hp', hne]
  · have hne : "main" ≠ p.name := fun h => hp h.symm
    simp only [scheduledName, NameClash, packQueryName, hp, hp', ne_eq, not_false_eq_true,
      not_true_eq_false, if_true, if_false, false_and, true_and, and_false, false_or]
    exact eq_comm
  · have hname : ∀ (q : EventSubscribers.Pack) (n : String), q.name ≠ "main" →
        scheduledName delimiter q n = packQueryName delimiter q.name n :=
      fun q n h => if_pos h
    rw [hname p query hp, hname p' query' hp', packQueryName_eq_iff, append_delimiter_eq_iff]
    simp [NameClash, hp, hp']

/-! ### Unambiguous names -/

section Unambiguous

variable (delimiter : String) (discovered : List String → Bool) (l : PackList)

/-- The schedule as its readers see it. -/
def PackList.schedule (blacklist : Blacklist) : EventSubscribers.Schedule :=
  ⟨l.packs.map (Pack.view discovered), blacklist⟩

/-- Distinct queries of active packs are passed under distinct names, at every
time and under every blacklist. -/
def Unambiguous : Prop :=
  ∀ (now : UInt64) (blacklisted : Bool) (blacklist : Blacklist),
    ((scheduledQueries delimiter now blacklisted (l.schedule discovered blacklist)).1.map
      Prod.fst).Nodup

/-- The packs that execute. -/
def PackList.active : List Pack := l.packs.filter (Pack.shouldPackExecute discovered)

/-- No two queries of the packs that execute clash. -/
def NoClash : Prop :=
  ∀ p ∈ l.active discovered, ∀ p' ∈ l.active discovered,
    ∀ query ∈ p.schedule.keys, ∀ query' ∈ p'.schedule.keys, p ≠ p' ∨ query ≠ query' →
      ¬NameClash delimiter p.name query p'.name query'

theorem unambiguous_iff_activeNames :
    Unambiguous delimiter discovered l ↔
      (activeNames delimiter (l.packs.map (Pack.view discovered))).Nodup := by
  constructor
  · intro h
    have hempty := h 0 false ∅
    rw [PackList.schedule, scheduledQueries_of_empty] at hempty
    exact hempty
  · intro h now blacklisted blacklist
    exact h.sublist (scheduledQueries_sublist delimiter now blacklisted _)

theorem activeNames_view :
    activeNames delimiter (l.packs.map (Pack.view discovered)) =
      (l.active discovered).flatMap fun p =>
        p.schedule.keys.map (scheduledName delimiter (p.view discovered)) := by
  rw [activeNames, List.filter_map, List.flatMap_map]
  apply List.flatMap_congr
  intro p hp
  simp only [Pack.view, List.map_map, ← Std.ExtTreeMap.map_fst_toList_eq_keys]
  rfl

variable {delimiter discovered l}

theorem PackList.active_distinct :
    (l.active discovered).Pairwise fun p q => ¬(p.name = q.name ∧ p.source = q.source) :=
  l.distinct.filter _

theorem PackList.active_nodup : (l.active discovered).Nodup := by
  apply l.active_distinct.imp
  rintro p q h rfl
  exact h ⟨rfl, rfl⟩

/-- Names are distinct inside a pack and disjoint between two packs. -/
theorem noClash_iff_nodup :
    NoClash delimiter discovered l ↔
      ((l.active discovered).flatMap fun p =>
        p.schedule.keys.map (scheduledName delimiter (p.view discovered))).Nodup := by
  rw [List.nodup_flatMap]
  constructor
  · intro h
    constructor
    · intro p hp
      apply List.Nodup.map_on _ Std.ExtTreeMap.nodup_keys
      intro query hquery query' hquery' heq
      by_contra hne
      exact h p hp p hp query hquery query' hquery' (Or.inr hne)
        ((scheduledName_eq_iff _ _ _ _ _).mp heq)
    · apply l.active_nodup.pairwise_of_forall_ne
      intro p hp p' hp' hne name hname hname'
      obtain ⟨query, hquery, rfl⟩ := List.mem_map.mp hname
      obtain ⟨query', hquery', heq⟩ := List.mem_map.mp hname'
      exact h p hp p' hp' query hquery query' hquery' (Or.inl hne)
        ((scheduledName_eq_iff _ _ _ _ _).mp heq.symm)
  · rintro ⟨hpack, hpacks⟩ p hp p' hp' query hquery query' hquery' hne hclash
    have heq : scheduledName delimiter (p.view discovered) query =
        scheduledName delimiter (p'.view discovered) query' :=
      (scheduledName_eq_iff _ _ _ _ _).mpr hclash
    by_cases hpp : p = p'
    · subst hpp
      have hquery_ne : query ≠ query' := hne.resolve_left fun h => h rfl
      exact hquery_ne (List.inj_on_of_nodup_map (hpack p hp) hquery hquery' heq)
    · have : Std.Symm (Function.onFun List.Disjoint fun p : Pack =>
          p.schedule.keys.map (scheduledName delimiter (p.view discovered))) :=
        ⟨fun _ _ h => h.symm⟩
      have hdisjoint := hpacks.forall hp hp' hpp
      exact hdisjoint (List.mem_map.mpr ⟨query, hquery, rfl⟩)
        (List.mem_map.mpr ⟨query', hquery', heq.symm⟩)

end Unambiguous

/-- Names are unambiguous exactly if no two queries of the active packs clash. -/
theorem unambiguous_iff (delimiter : String) (discovered : List String → Bool) (l : PackList) :
    Unambiguous delimiter discovered l ↔ NoClash delimiter discovered l := by
  rw [unambiguous_iff_activeNames, activeNames_view, noClash_iff_nodup]

/-- A pack of one query. -/
def singleton (name source query : String) : Pack where
  name := name
  source := source
  shard := 0
  platform := ""
  version := ""
  discovery_queries := []
  valid := true
  schedule := (∅ : Std.ExtTreeMap String ScheduledQuery).insert query
    ⟨"select 1;", 3600, ⟨false, true, true⟩⟩

/-- The query `b_c` of the pack `a` and the query `c` of the pack `a_b` are both
called `pack_a_b_c`. -/
theorem packs_ambiguous :
    ¬Unambiguous "_" (fun _ => true)
      (PackList.add (singleton "a_b" "conf" "c")
        (PackList.add (singleton "a" "conf" "b_c") PackList.empty)) := by
  rw [unambiguous_iff_activeNames]
  decide +kernel

end Osquery.Config
