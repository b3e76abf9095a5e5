import Osquery.Config.History
import Osquery.Foundation.Contributions
import Osquery.Foundation.Simulation

/-!
# The file paths of the configuration

The `file_paths` parser keeps what the sources name in three places: the watched files of the
configuration, by source; the categories with accesses, by source and in its document; and the
excluded paths, in its document only. An update clears the first two for its source and adds
what the new content names, unless that names no paths to watch.

## Implementation notes

The members of the document that nobody reads are left out, and the set of the categories is
written to it in its order. What a content excludes is the map that its object stands for, so
that the last of several members of one name counts.
-/

namespace Osquery.Config

open Foundation.JsonText Foundation.Contributions Foundation.Simulation Core.Rows

/-! ### The parser -/

/-- The parser with its document, and the watched files of the configuration. -/
structure FilePathsParser where
  access_map_ : Std.ExtTreeMap String (List String)
  file_accesses : List String
  exclude_paths : List (String × Json)
  files : Files

/-- A member replaces the one of its name. -/
def addMember (key : String) (value : Json) (obj : List (String × Json)) :
    List (String × Json) :=
  obj.eraseP (fun t => t.1 = key) ++ [(key, value)]

/-- The categories of an array, without the items that are no strings. -/
def accessCategories (accesses : Json) : List String :=
  (getArray accesses).filterMap fun category =>
    match category with
    | .str s => some (cstr s)
    | _ => none

/-- The categories of all sources, each of them once. -/
def validCategories (access_map_ : Std.ExtTreeMap String (List String)) : List String :=
  (Std.ExtTreeSet.ofList (access_map_.toList.flatMap Prod.snd)).toList

/-- The members that are arrays, with the texts of their items. -/
def excludeObject (exclude_paths : Json) : List (String × Json) :=
  (getObject exclude_paths).foldl
    (fun obj category =>
      match category.2 with
      | .arr items =>
          addMember (cstr category.1) (.arr (items.map fun path => .str (getString path))) obj
      | _ => obj) []

/-- The object names paths to watch. -/
def hasPaths (obj : Json) : Bool :=
  (parserMember? "file_paths" obj).isSome || (parserMember? "file_paths_query" obj).isSome

namespace FilePathsParser

def setUp : FilePathsParser where
  access_map_ := ∅
  file_accesses := []
  exclude_paths := []
  files := ∅

def updateAccesses (source : String) (obj : Json) (st : FilePathsParser) : FilePathsParser :=
  match parserMember? "file_accesses" obj with
  | none => st
  | some accesses =>
      let access_map_ := (accessCategories accesses).foldl
        (fun map path => map.insert source (map.getD source [] ++ [path])) st.access_map_
      { st with access_map_, file_accesses := validCategories access_map_ }

def updateExcludes (obj : Json) (st : FilePathsParser) : FilePathsParser :=
  match parserMember? "exclude_paths" obj with
  | none => st
  | some exclude_paths =>
      { st with exclude_paths := mergeObject st.exclude_paths (excludeObject exclude_paths) }

/-- The update of the parser; without paths it ends after the files are removed. -/
def update (env : Environment) (source : String) (obj : Json) (st : FilePathsParser) :
    FilePathsParser :=
  let st := { st with
    files := filePathsUpdate env source obj st.files
    access_map_ := st.access_map_.erase source }
  if !hasPaths obj then st
  else updateExcludes obj (updateAccesses source obj st)

end FilePathsParser

/-! ### What the contents name -/

def accessesOf (obj : Json) : List String :=
  ((parserMember? "file_accesses" obj).map accessCategories).getD []

def accessSet (obj : Json) : Set String := {category | category ∈ accessesOf obj}

/-- The accesses that an update with the object remembers. -/
def remembered (obj : Json) : List String := if hasPaths obj then accessesOf obj else []

def rememberedSet (obj : Json) : Set String := {category | category ∈ remembered obj}

/-- The paths under every category; a category that is not there has none at all. -/
def excludeMap (members : List (String × Json)) (category : String) : WithBot (Set String) :=
  match member? category (.obj members) with
  | none => ⊥
  | some paths => (({path | ∃ item ∈ getArray paths, getString item = path} : Set String) :
      WithBot (Set String))

def excludesOf (obj : Json) : String → WithBot (Set String) :=
  excludeMap (((parserMember? "exclude_paths" obj).map excludeObject).getD [])

/-- The latest contents of the sources. -/
abbrev FileContents := List (String × Json)

/-- The three stores have what the latest contents name. -/
structure FilePathsParser.Agrees (env : Environment) (st : FilePathsParser)
    (contents : FileContents) : Prop where
  accesses : {category | category ∈ st.file_accesses} = total accessSet contents
  excludes : excludeMap st.exclude_paths = total excludesOf contents
  watched : ∀ c ∈ contents, watched st.files c.1 = fileCategories env c.2
  unwatched : ∀ source, (∀ c ∈ contents, c.1 ≠ source) → Config.watched st.files source = ∅

/-- A new content takes nothing away that the document keeps, and the document keeps nothing
that is taken away. -/
def Independent (contents : FileContents) (u : String × Json) : Prop :=
  (if hasPaths u.2 ∧ (parserMember? "file_accesses" u.2).isSome then
    ∀ category ∈ total accessSet (without u.1 contents),
      category ∈ total rememberedSet (without u.1 contents) ∨ category ∈ accessSet u.2
  else total accessSet contents = total accessSet (without u.1 contents) ⊔ accessSet u.2) ∧
  if hasPaths u.2 then
    ∀ category,
      (excludesOf u.2 category = ⊥ →
        total excludesOf contents category = total excludesOf (without u.1 contents) category) ∧
      (excludesOf u.2 category ≠ ⊥ →
        total excludesOf (without u.1 contents) category ≤ excludesOf u.2 category)
  else total excludesOf contents = total excludesOf (without u.1 contents) ⊔ excludesOf u.2

/-! ### Members of an object -/

theorem member?_cons (m : String × Json) (members : List (String × Json)) (name : String) :
    member? name (.obj (m :: members)) =
      if m.1 = name then some m.2 else member? name (.obj members) := by
  rw [member?, List.find?_cons]
  by_cases h : m.1 = name
  · rw [decide_eq_true h, if_pos h]
    rfl
  · rw [decide_eq_false h, if_neg h]
    rfl

theorem member?_eq_none {members : List (String × Json)} {name : String} :
    member? name (.obj members) = none ↔ name ∉ members.map Prod.fst := by
  induction members with
  | nil => exact iff_of_true rfl List.not_mem_nil
  | cons m members ih =>
      rw [member?_cons, List.map_cons, List.mem_cons, not_or]
      by_cases h : m.1 = name
      · rw [if_pos h]
        exact iff_of_false (Option.some_ne_none _) fun hboth => hboth.1 h.symm
      · rw [if_neg h, ih]
        exact (and_iff_right (Ne.symm h)).symm

theorem eraseP_cons_name (key : String) (m : String × Json) (obj : List (String × Json)) :
    (m :: obj).eraseP (fun t => t.1 = key) =
      if m.1 = key then obj else m :: obj.eraseP (fun t => t.1 = key) := by
  rw [List.eraseP_cons]
  by_cases h : m.1 = key
  · rw [decide_eq_true h, cond_true, if_pos h]
  · rw [decide_eq_false h, cond_false, if_neg h]

theorem names_addMember (key : String) (value : Json) (obj : List (String × Json)) :
    (addMember key value obj).map Prod.fst = (obj.map Prod.fst).erase key ++ [key] := by
  rw [addMember, List.map_append, List.map_singleton]
  congr 1
  induction obj with
  | nil => rfl
  | cons m obj ih =>
      rw [eraseP_cons_name]
      by_cases h : m.1 = key
      · rw [if_pos h, List.map_cons, h, List.erase_cons_head]
      · rw [if_neg h, List.map_cons, List.map_cons, List.erase_cons_tail (by simpa using h), ih]

theorem nodup_addMember (key : String) (value : Json) {obj : List (String × Json)}
    (h : (obj.map Prod.fst).Nodup) : ((addMember key value obj).map Prod.fst).Nodup := by
  rw [names_addMember, List.nodup_append]
  refine ⟨h.erase key, List.nodup_singleton key, ?_⟩
  intro name hname key' hkey
  rw [List.mem_singleton.mp hkey]
  exact (h.mem_erase_iff.mp hname).1

theorem member?_addMember (key : String) (value : Json) {obj : List (String × Json)}
    (h : (obj.map Prod.fst).Nodup) (name : String) :
    member? name (.obj (addMember key value obj)) =
      if key = name then some value else member? name (.obj obj) := by
  induction obj with
  | nil => exact member?_cons (key, value) [] name
  | cons m obj ih =>
      obtain ⟨hhead, htail⟩ := List.nodup_cons.mp h
      by_cases hm : m.1 = key
      · have hadded : addMember key value (m :: obj) = obj ++ [(key, value)] := by
          rw [addMember, eraseP_cons_name, if_pos hm]
        have herased : addMember key value obj = obj ++ [(key, value)] := by
          rw [addMember, List.eraseP_of_forall_not]
          intro n hn
          rw [decide_eq_true_eq, ← hm]
          exact fun heq => hhead (heq ▸ List.mem_map_of_mem hn)
        rw [hadded, ← herased, ih htail, member?_cons, hm]
        split <;> rfl
      · have hadded : addMember key value (m :: obj) = m :: addMember key value obj := by
          rw [addMember, eraseP_cons_name, if_neg hm]
          rfl
        rw [hadded, member?_cons, member?_cons, ih htail]
        by_cases hkey : key = name
        · rw [if_pos hkey, if_neg (hkey ▸ hm), if_pos hkey]
        · rw [if_neg hkey, if_neg hkey]

theorem nodup_mergeObject {target : List (String × Json)} (h : (target.map Prod.fst).Nodup)
    (source : List (String × Json)) : ((mergeObject target source).map Prod.fst).Nodup := by
  induction source generalizing target with
  | nil => exact h
  | cons m source ih => exact ih (nodup_addMember m.1 m.2 h)

/-- The members of the source come first. -/
theorem member?_mergeObject {target source : List (String × Json)}
    (htarget : (target.map Prod.fst).Nodup) (hsource : (source.map Prod.fst).Nodup)
    (name : String) :
    member? name (.obj (mergeObject target source)) =
      (member? name (.obj source)).or (member? name (.obj target)) := by
  induction source generalizing target with
  | nil => rfl
  | cons m source ih =>
      obtain ⟨hhead, htail⟩ := List.nodup_cons.mp hsource
      have hmerge : mergeObject target (m :: source) =
          mergeObject (addMember m.1 m.2 target) source := rfl
      rw [hmerge, ih (nodup_addMember m.1 m.2 htarget) htail, member?_addMember m.1 m.2 htarget,
        member?_cons]
      by_cases h : m.1 = name
      · rw [if_pos h, if_pos h, member?_eq_none.mpr (h ▸ hhead)]
        rfl
      · rw [if_neg h, if_neg h]

theorem nodup_excludeObject (exclude_paths : Json) :
    ((excludeObject exclude_paths).map Prod.fst).Nodup := by
  rw [excludeObject]
  refine List.foldlRecOn (motive := fun obj : List (String × Json) => (obj.map Prod.fst).Nodup) _ _
    List.nodup_nil ?_
  intro obj hobj category _
  split
  · exact nodup_addMember _ _ hobj
  · exact hobj

/-- A merged object overrides the categories of the document. -/
theorem excludeMap_mergeObject {target source : List (String × Json)}
    (htarget : (target.map Prod.fst).Nodup) (hsource : (source.map Prod.fst).Nodup) :
    excludeMap (mergeObject target source) = override (excludeMap source) (excludeMap target) := by
  funext category
  rw [override, excludeMap, member?_mergeObject htarget hsource, excludeMap, excludeMap]
  cases member? category (.obj source) with
  | none => exact (if_pos rfl).symm
  | some paths => exact (if_neg (WithBot.coe_ne_bot)).symm

/-! ### What an update remembers -/

theorem mem_validCategories {access_map_ : Std.ExtTreeMap String (List String)}
    {category : String} :
    category ∈ validCategories access_map_ ↔
      ∃ source : String, category ∈ access_map_.getD source [] := by
  rw [validCategories, Std.ExtTreeSet.mem_toList, Std.ExtTreeSet.mem_ofList, List.contains_iff_mem,
    List.mem_flatMap]
  constructor
  · rintro ⟨⟨source, categories⟩, hentry, hmem⟩
    have hget := Std.ExtTreeMap.mem_toList_iff_getElem?_eq_some.mp hentry
    refine ⟨source, ?_⟩
    rw [Std.ExtTreeMap.getD_eq_getD_getElem?, hget]
    exact hmem
  · rintro ⟨source, hmem⟩
    rw [Std.ExtTreeMap.getD_eq_getD_getElem?] at hmem
    cases hget : access_map_[source]? with
    | none =>
        rw [hget] at hmem
        cases hmem
    | some categories =>
        rw [hget] at hmem
        exact ⟨(source, categories), Std.ExtTreeMap.mem_toList_iff_getElem?_eq_some.mpr hget, hmem⟩

theorem getD_foldl_push (source : String) (paths : List String)
    (map : Std.ExtTreeMap String (List String)) (k : String) :
    (paths.foldl (fun map path => map.insert source (map.getD source [] ++ [path])) map).getD k []
      = if k = source then map.getD source [] ++ paths else map.getD k [] := by
  induction paths generalizing map with
  | nil =>
      rw [List.foldl_nil, List.append_nil]
      split
      · next h => rw [h]
      · rfl
  | cons path paths ih =>
      rw [List.foldl_cons, ih, Std.ExtTreeMap.getD_insert_self, Std.ExtTreeMap.getD_insert,
        List.append_assoc]
      split
      · rfl
      · next h =>
          rw [if_neg]
          rw [compare_eq_iff_eq]
          exact fun heq => h heq.symm

namespace FilePathsParser

variable {env : Environment} {source : String} {obj : Json} {st : FilePathsParser}
  {contents : FileContents}

theorem files_update :
    (st.update env source obj).files = filePathsUpdate env source obj st.files := by
  rw [update]
  simp only [updateExcludes, updateAccesses]
  cases hasPaths obj with
  | false => rfl
  | true =>
      cases parserMember? "file_accesses" obj <;> cases parserMember? "exclude_paths" obj <;> rfl

theorem access_map_update (k : String) :
    (st.update env source obj).access_map_.getD k [] =
      if k = source then remembered obj else st.access_map_.getD k [] := by
  have herase : (st.access_map_.erase source).getD k [] =
      if k = source then [] else st.access_map_.getD k [] := by
    rw [Std.ExtTreeMap.getD_erase]
    simp only [compare_eq_iff_eq, @eq_comm _ source k]
  rw [update, remembered]
  cases hasPaths obj with
  | false => exact herase
  | true =>
      have hexcludes : ∀ st : FilePathsParser,
          (st.updateExcludes obj).access_map_ = st.access_map_ := by
        intro st
        rw [updateExcludes]
        split <;> rfl
      simp only [Bool.not_true, Bool.false_eq_true, if_false, if_true, hexcludes]
      rw [updateAccesses, accessesOf]
      cases parserMember? "file_accesses" obj with
      | none => exact herase
      | some accesses =>
          simp only [getD_foldl_push, Option.map_some, Option.getD_some, herase]
          rw [Std.ExtTreeMap.getD_erase_self, List.nil_append]
          split <;> rfl

/-- The document after an update, by its two keys. -/
theorem document_update :
    (st.update env source obj).file_accesses =
        (if hasPaths obj ∧ (parserMember? "file_accesses" obj).isSome then
          validCategories (st.update env source obj).access_map_
        else st.file_accesses) ∧
      (st.update env source obj).exclude_paths =
        if hasPaths obj then
          mergeObject st.exclude_paths
            (((parserMember? "exclude_paths" obj).map excludeObject).getD [])
        else st.exclude_paths := by
  rw [update]
  cases hasPaths obj with
  | false => exact ⟨rfl, rfl⟩
  | true =>
      simp only [Bool.not_true, Bool.false_eq_true, if_false, updateExcludes, updateAccesses]
      cases parserMember? "file_accesses" obj <;> cases parserMember? "exclude_paths" obj <;>
        exact ⟨rfl, rfl⟩

/-- The access map has what the latest contents with paths name. -/
structure Remembers (st : FilePathsParser) (contents : FileContents) : Prop where
  access_map : ∀ source category, category ∈ st.access_map_.getD source [] ↔
    ∃ obj, (source, obj) ∈ contents ∧ category ∈ remembered obj
  nodup : (st.exclude_paths.map Prod.fst).Nodup

theorem nodup_excludes (obj : Json) :
    ((((parserMember? "exclude_paths" obj).map excludeObject).getD []).map Prod.fst).Nodup := by
  cases parserMember? "exclude_paths" obj with
  | none => exact List.nodup_nil
  | some exclude_paths => exact nodup_excludeObject exclude_paths

theorem Remembers.update (h : st.Remembers contents) :
    (st.update env source obj).Remembers (replace source obj contents) where
  access_map k category := by
    rw [access_map_update]
    simp only [mem_replace, Prod.mk.injEq]
    by_cases hk : k = source
    · subst hk
      rw [if_pos rfl]
      constructor
      · exact fun hmem => ⟨obj, .inr ⟨rfl, rfl⟩, hmem⟩
      · rintro ⟨other, ⟨-, hne⟩ | ⟨-, rfl⟩, hmem⟩
        · exact absurd rfl hne
        · exact hmem
    · rw [if_neg hk, h.access_map]
      constructor
      · rintro ⟨other, hother, hmem⟩
        exact ⟨other, .inl ⟨hother, hk⟩, hmem⟩
      · rintro ⟨other, ⟨hother, -⟩ | ⟨heq, -⟩, hmem⟩
        · exact ⟨other, hother, hmem⟩
        · exact absurd heq hk
  nodup := by
    rw [document_update.2]
    split
    · exact nodup_mergeObject h.nodup _
    · exact h.nodup

/-! ### One update -/

theorem rememberedSet_le (obj : Json) : rememberedSet obj ≤ accessSet obj := by
  intro category hmem
  rw [rememberedSet, Set.mem_ofPred_eq, remembered] at hmem
  split at hmem
  · exact hmem
  · cases hmem

/-- The categories of the rebuilt document are those that are remembered. -/
theorem Remembers.validCategories (h : st.Remembers contents) :
    {category | category ∈ Config.validCategories st.access_map_} =
      total rememberedSet contents := by
  ext category
  rw [Set.mem_ofPred_eq, mem_validCategories, mem_total]
  constructor
  · rintro ⟨source, hmem⟩
    obtain ⟨obj, hobj, hremembered⟩ := (h.access_map source category).mp hmem
    exact ⟨(source, obj), hobj, hremembered⟩
  · rintro ⟨⟨source, obj⟩, hobj, hremembered⟩
    exact ⟨source, (h.access_map source category).mpr ⟨obj, hobj, hremembered⟩⟩

theorem accesses_update_iff (h : st.Remembers contents) (hagrees : st.Agrees env contents) :
    {category | category ∈ (st.update env source obj).file_accesses} =
        total accessSet (replace source obj contents) ↔
      if hasPaths obj ∧ (parserMember? "file_accesses" obj).isSome then
        ∀ category ∈ total accessSet (without source contents),
          category ∈ total rememberedSet (without source contents) ∨ category ∈ accessSet obj
      else total accessSet contents =
        total accessSet (without source contents) ⊔ accessSet obj := by
  rw [document_update.1, total_replace]
  by_cases hrebuilt : hasPaths obj ∧ (parserMember? "file_accesses" obj).isSome
  · have hall : rememberedSet obj = accessSet obj := by
      rw [rememberedSet, remembered, hrebuilt.1]
      rfl
    have hle : total rememberedSet (without source contents) ≤
        total accessSet (without source contents) :=
      total_le rememberedSet fun c hc => (rememberedSet_le c.2).trans (le_total accessSet hc)
    have hupdated : (st.update env source obj).Remembers (replace source obj contents) := h.update
    have hmemory := hupdated.validCategories
    rw [total_replace, hall] at hmemory
    rw [if_pos hrebuilt, if_pos hrebuilt, hmemory]
    constructor
    · intro heq category hmem
      have hunion : category ∈ total accessSet (without source contents) ⊔ accessSet obj :=
        .inl hmem
      rw [← heq] at hunion
      exact hunion
    · intro hkept
      apply le_antisymm
      · exact sup_le_sup_right hle _
      · exact sup_le hkept le_sup_right
  · rw [if_neg hrebuilt, if_neg hrebuilt, hagrees.accesses]

theorem excludes_update_iff (h : st.Remembers contents) (hagrees : st.Agrees env contents) :
    excludeMap (st.update env source obj).exclude_paths =
        total excludesOf (replace source obj contents) ↔
      if hasPaths obj then
        ∀ category,
          (excludesOf obj category = ⊥ →
            total excludesOf contents category =
              total excludesOf (without source contents) category) ∧
          (excludesOf obj category ≠ ⊥ →
            total excludesOf (without source contents) category ≤ excludesOf obj category)
      else total excludesOf contents =
        total excludesOf (without source contents) ⊔ excludesOf obj := by
  rw [document_update.2, total_replace]
  cases hasPaths obj with
  | false =>
      rw [if_neg Bool.false_ne_true, if_neg Bool.false_ne_true, hagrees.excludes]
  | true =>
      rw [if_pos rfl, if_pos rfl, excludeMap_mergeObject h.nodup (nodup_excludes obj),
        hagrees.excludes]
      exact override_eq_sup_iff

theorem watched_update (source : String) (obj : Json) (hagrees : st.Agrees env contents) :
    (∀ c ∈ replace source obj contents,
        watched (st.update env source obj).files c.1 = fileCategories env c.2) ∧
      ∀ k, (∀ c ∈ replace source obj contents, c.1 ≠ k) →
        watched (st.update env source obj).files k = ∅ := by
  rw [files_update]
  constructor
  · intro c hc
    rw [watched_filePathsUpdate]
    rcases mem_replace.mp hc with ⟨hc, hne⟩ | rfl
    · rw [if_neg hne]
      exact hagrees.watched c hc
    · rw [if_pos rfl]
  · intro k hk
    have hne : k ≠ source := fun heq => hk (source, obj) (mem_replace.mpr (.inr rfl)) heq.symm
    rw [watched_filePathsUpdate, if_neg hne]
    apply hagrees.unwatched
    intro c hc heq
    exact hk c (mem_replace.mpr (.inl ⟨hc, fun hsource => hne (heq.symm.trans hsource)⟩)) heq

/-- On stores that agree, the condition on the new content is exact. -/
theorem agrees_update_iff (h : st.Remembers contents) (hagrees : st.Agrees env contents) :
    (st.update env source obj).Agrees env (replace source obj contents) ↔
      Independent contents (source, obj) := by
  rw [Independent, ← accesses_update_iff h hagrees, ← excludes_update_iff h hagrees]
  constructor
  · exact fun hupdated => ⟨hupdated.accesses, hupdated.excludes⟩
  · rintro ⟨haccesses, hexcludes⟩
    obtain ⟨hwatched, hunwatched⟩ := watched_update source obj hagrees
    exact ⟨haccesses, hexcludes, hwatched, hunwatched⟩

end FilePathsParser

/-! ### Runs of updates -/

/-- The parser, with the latest contents of the sources. -/
structure FilePathsRun where
  parser : FilePathsParser
  contents : FileContents

namespace FilePathsRun

variable (env : Environment)

def setUp : FilePathsRun := ⟨.setUp, []⟩

def step (run : FilePathsRun) (u : String × Json) : FilePathsRun where
  parser := run.parser.update env u.1 u.2
  contents := replace u.1 u.2 run.contents

/-- After the update the stores have what the latest contents name. -/
def AgreesAfter (run : FilePathsRun) (u : String × Json) : Prop :=
  (run.step env u).parser.Agrees env (run.step env u).contents

theorem agrees_setUp : setUp.parser.Agrees env setUp.contents where
  accesses := by
    ext category
    exact iff_of_false List.not_mem_nil (Set.notMem_empty category)
  excludes := rfl
  watched c hc := by cases hc
  unwatched source _ := Std.ExtTreeMap.getD_empty

theorem remembers_setUp : setUp.parser.Remembers setUp.contents where
  access_map source category := by
    have hempty : setUp.parser.access_map_.getD source [] = [] := Std.ExtTreeMap.getD_empty
    rw [hempty]
    apply iff_of_false List.not_mem_nil
    rintro ⟨obj, hobj, -⟩
    cases hobj
  nodup := List.nodup_nil

/-- Every update of a run leaves the stores with what the latest contents name exactly when
every content meets the condition. -/
theorem agreesAfter_throughout_iff (updates : List (String × Json)) :
    Throughout (step env) (AgreesAfter env) setUp updates ↔
      Throughout (fun contents u => replace u.1 u.2 contents) Independent [] updates := by
  apply throughout_iff (R := fun run contents => run.contents = contents ∧
    run.parser.Agrees env contents ∧ run.parser.Remembers contents) _ _
    (fun u (_ : u ∈ updates) => trivial)
  · exact ⟨rfl, agrees_setUp env, remembers_setUp⟩
  · rintro run contents ⟨source, obj⟩ ⟨rfl, hagrees, hremembers⟩ -
    exact FilePathsParser.agrees_update_iff hremembers hagrees
  · rintro run contents ⟨source, obj⟩ ⟨rfl, hagrees, hremembers⟩ - hindependent
    exact ⟨rfl, (FilePathsParser.agrees_update_iff hremembers hagrees).mpr hindependent,
      hremembers.update⟩

end FilePathsRun

/-! ### Sample runs -/

/-- A content with paths, and with accesses and excluded paths under the same category. -/
def monitored (accesses : List Json) (excluded : String) : Json :=
  .obj [("file_paths", .obj [("etc", .arr [.str "/etc/%"])]), ("file_accesses", .arr accesses),
    ("exclude_paths", .obj [("etc", .arr [.str excluded])])]

/-- A source gives up everything. -/
def emptied : List (String × Json) :=
  [("a", monitored [.str "etc"] "/etc/mtab"), ("a", .obj [])]

/-- A source has accesses, but no paths. -/
def accessesOnly : List (String × Json) := [("a", .obj [("file_accesses", .arr [.str "etc"])])]

/-- Two sources exclude paths under one category. -/
def sharedCategory : List (String × Json) :=
  [("a", monitored [] "/etc/mtab"), ("b", monitored [] "/etc/fstab")]

theorem not_agreesAfter_throughout :
    ¬Throughout (FilePathsRun.step sampleEnvironment) (FilePathsRun.AgreesAfter sampleEnvironment)
        .setUp emptied ∧
      ¬Throughout (FilePathsRun.step sampleEnvironment)
        (FilePathsRun.AgreesAfter sampleEnvironment) .setUp accessesOnly ∧
      ¬Throughout (FilePathsRun.step sampleEnvironment)
        (FilePathsRun.AgreesAfter sampleEnvironment) .setUp sharedCategory := by
  refine ⟨?_, ?_, ?_⟩
  · rintro ⟨-, hagrees, -⟩
    have hkept : "etc" ∈ total accessSet [("a", Json.obj [])] := by
      have hmem : "etc" ∈ total accessSet (((FilePathsRun.setUp.step sampleEnvironment
          ("a", monitored [.str "etc"] "/etc/mtab")).step sampleEnvironment
            ("a", .obj [])).contents) := by
        rw [← hagrees.accesses]
        exact (by decide +kernel : "etc" ∈ ((FilePathsRun.setUp.step sampleEnvironment
          ("a", monitored [.str "etc"] "/etc/mtab")).step sampleEnvironment
            ("a", .obj [])).parser.file_accesses)
      exact hmem
    obtain ⟨c, hc, hmem⟩ := mem_total.mp hkept
    rw [List.mem_singleton.mp hc] at hmem
    cases hmem
  · rintro ⟨hagrees, -⟩
    have hnamed : "etc" ∈ total accessSet ((FilePathsRun.setUp.step sampleEnvironment
        ("a", .obj [("file_accesses", .arr [.str "etc"])])).contents) :=
      mem_total.mpr ⟨_, List.mem_singleton.mpr rfl,
        (by decide +kernel : "etc" ∈ accessesOf (.obj [("file_accesses", .arr [.str "etc"])]))⟩
    rw [← hagrees.accesses] at hnamed
    cases hnamed
  · rintro ⟨-, hagrees, -⟩
    have hfirst : excludesOf (monitored [] "/etc/mtab") "etc" =
        (({path | ∃ item ∈ [Json.str "/etc/mtab"], getString item = path} : Set String) :
          WithBot (Set String)) := rfl
    have hkept : excludeMap (((FilePathsRun.setUp.step sampleEnvironment
        ("a", monitored [] "/etc/mtab")).step sampleEnvironment
          ("b", monitored [] "/etc/fstab")).parser.exclude_paths) "etc" =
        (({path | ∃ item ∈ [Json.str "/etc/fstab"], getString item = path} : Set String) :
          WithBot (Set String)) := rfl
    have hle := le_total excludesOf (mem_replace.mpr (.inl ⟨mem_replace.mpr (.inr rfl),
      (by decide : "a" ≠ "b")⟩) : ("a", monitored [] "/etc/mtab") ∈
        replace "b" (monitored [] "/etc/fstab") (replace "a" (monitored [] "/etc/mtab") [])) "etc"
    have hsame := hkept.symm.trans (congrFun hagrees.excludes "etc")
    rw [hfirst] at hle
    have hsubset := WithBot.coe_le_coe.mp (hle.trans_eq hsame.symm)
    obtain ⟨item, hitem, hpath⟩ := hsubset ⟨_, List.mem_singleton.mpr rfl, rfl⟩
    rw [List.mem_singleton.mp hitem] at hpath
    revert hpath
    decide +kernel

end Osquery.Config
