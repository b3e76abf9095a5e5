import Osquery.Config.Sources
import Osquery.Foundation.LastChange

/-!
# Configuration without history

An update of a source is meant to undo what the source contributed before. Each
content of a source contributes packs and entries of the watched files, and a
configuration is the sum of the present contents, in the order in which the
sources last changed.

## Implementation notes

A `View` is what the rest of the program sees of a configuration: the packs and
the watched files without empty entries. The entries of the files of a pack are
named by the source, the delimiter and the pack, without a mark between a source
and a pack of another source, so two sources may use one entry; `Touches` names
the entries that an update of a source empties or fills. Options reach the flags
of the process and stay there.
-/

namespace Osquery.Config

open Foundation.JsonText Foundation.LastChange Core.Rows

variable {env : Environment}

/-! ### Watched files -/

theorem watched_removeFiles (files : Files) (source k : String) :
    watched (removeFiles source files) k = if k = source then ∅ else watched files k := by
  rw [watched, watched, removeFiles]
  split_ifs with hmem heq heq
  · rw [heq, Std.ExtTreeMap.getD_insert_self]
  · rw [Std.ExtTreeMap.getD_insert, if_neg]
    simpa using fun h => heq h.symm
  · rw [heq, Std.ExtTreeMap.getD_eq_fallback hmem]
  · rfl

/-- One more path under a category. -/
def addPath (categories : FileCategories) (f : String × String) : FileCategories :=
  categories.insert f.1 (categories.getD f.1 [] ++ [f.2])

theorem watched_addFile (files : Files) (source : String) (f : String × String) (k : String) :
    watched (addFile source f.1 f.2 files) k =
      if k = source then addPath (watched files source) f else watched files k := by
  rw [watched, addFile, Std.ExtTreeMap.getD_insert]
  by_cases h : k = source
  · rw [if_pos h, h, if_pos (by simp)]
    rfl
  · rw [if_neg h, if_neg (by simpa using fun e => h e.symm)]
    rfl

theorem watched_foldl_addFile (source : String) (listed : List (String × String))
    (files : Files) (k : String) :
    watched (listed.foldl (fun files f => addFile source f.1 f.2 files) files) k =
      if k = source then listed.foldl addPath (watched files source) else watched files k := by
  induction listed generalizing files with
  | nil => split_ifs with h <;> simp [h]
  | cons f rest ih =>
      rw [List.foldl_cons, ih, watched_addFile, watched_addFile, if_pos rfl, List.foldl_cons]
      split_ifs <;> rfl

/-- The files of a configuration object by category. -/
def fileCategories (env : Environment) (obj : Json) : FileCategories :=
  (listedFiles env obj).foldl addPath ∅

theorem watched_filePathsUpdate (source : String) (obj : Json) (files : Files) (k : String) :
    watched (filePathsUpdate env source obj files) k =
      if k = source then fileCategories env obj else watched files k := by
  rw [filePathsUpdate]
  split
  case isTrue h =>
    have hnone : listedFiles env obj = [] := by
      rw [Bool.and_eq_true, Option.isNone_iff_eq_none, Option.isNone_iff_eq_none] at h
      simp [listedFiles, h.1, h.2]
    rw [watched_removeFiles, fileCategories, hnone, List.foldl_nil]
  case isFalse =>
    rw [watched_foldl_addFile, watched_removeFiles, watched_removeFiles, if_pos rfl,
      fileCategories]
    split_ifs <;> rfl

/-! ### Options -/

/-- The flags that the configuration itself reads. -/
def namesFlag (option : String × Json) : Prop :=
  cstr option.1 = "pack_delimiter" ∨ cstr option.1 = "schedule_default_interval"

/-- An object whose options name one of these flags. -/
def SetsFlags (obj : Json) : Prop :=
  ∃ option ∈ ((parserMember? "options" obj).map getObject).getD [], namesFlag option

/-- No option that was merged so far names one of these flags. -/
def Quiet (st : ConfigState) : Prop := ∀ option ∈ st.options, ¬namesFlag option

theorem mem_mergeObject {target source : List (String × Json)} {m : String × Json}
    (h : m ∈ mergeObject target source) : m ∈ target ∨ m ∈ source := by
  rw [mergeObject] at h
  induction source generalizing target with
  | nil => exact Or.inl h
  | cons first rest ih =>
      rcases ih h with h | h
      · rcases List.mem_append.mp h with h | h
        · exact Or.inl (List.mem_of_mem_eraseP h)
        · exact Or.inr (List.mem_singleton.mp h ▸ List.mem_cons_self)
      · exact Or.inr (List.mem_cons_of_mem _ h)

theorem applyOption_of_not_namesFlag {flags : Flags} {option : String × Json}
    (h : ¬namesFlag option) : applyOption env flags option = flags := by
  rw [namesFlag, not_or] at h
  rw [applyOption]
  split_ifs
  · rfl
  · rw [updateValue, if_neg h.1, if_neg h.2]

theorem foldl_applyOption {flags : Flags} {options : List (String × Json)}
    (h : ∀ option ∈ options, ¬namesFlag option) :
    options.foldl (applyOption env) flags = flags := by
  induction options with
  | nil => rfl
  | cons option rest ih =>
      rw [List.foldl_cons, applyOption_of_not_namesFlag (h option List.mem_cons_self)]
      exact ih fun o ho => h o (List.mem_cons_of_mem _ ho)

/-- The options of an object that names no flag leave everything but the merged
options alone. -/
theorem optionsUpdate_quiet (env : Environment) {st : ConfigState} {obj : Json} (hst : Quiet st)
    (hobj : ¬SetsFlags obj) :
    ∃ options, optionsUpdate env obj st = { st with options } ∧
      ∀ option ∈ options, ¬namesFlag option := by
  rw [optionsUpdate]
  split
  · exact ⟨st.options, rfl, hst⟩
  · rename_i v hv
    have hmerged : ∀ option ∈ mergeObject st.options (getObject v), ¬namesFlag option := by
      intro option hoption hnames
      rcases mem_mergeObject hoption with h | h
      · exact hst option h hnames
      · exact hobj ⟨option, by rw [hv]; exact h, hnames⟩
    refine ⟨mergeObject st.options (getObject v), ?_, hmerged⟩
    simp only [foldl_applyOption hmerged]

/-! ### Views -/

/-- What the rest of the program sees of a configuration. -/
structure View where
  packs : List Pack
  files : String → FileCategories

def ConfigState.view (st : ConfigState) : View := ⟨st.schedule.packs, watched st.files⟩

/-- The entry of a source holds the files of an object. -/
def View.fill (source : String) (categories : FileCategories) (v : View) : View :=
  ⟨v.packs, Function.update v.files source categories⟩

theorem View.fill_files (source : String) (categories : FileCategories) (v : View) (k : String) :
    (v.fill source categories).files k = if k = source then categories else v.files k :=
  Function.update_apply _ _ _ _

/-- A step of the configuration that keeps the flags and the digests. -/
structure Steps (st st' : ConfigState) (v : View) : Prop where
  view : st'.view = v
  flags : st'.flags = st.flags
  hash : st'.hash = st.hash
  quiet : Quiet st'

theorem applyParsers_quiet (env : Environment) {st : ConfigState} {obj : Json} (source : String)
    (hst : Quiet st) (hobj : ¬SetsFlags obj) :
    Steps st (applyParsers env source obj st) (st.view.fill source (fileCategories env obj)) := by
  have hfilled : Quiet { st with files := filePathsUpdate env source obj st.files } := hst
  obtain ⟨options, heq, hquiet⟩ := optionsUpdate_quiet env hfilled hobj
  rw [applyParsers, heq]
  refine ⟨?_, rfl, rfl, hquiet⟩
  simp only [ConfigState.view, View.fill, View.mk.injEq, true_and]
  funext k
  rw [watched_filePathsUpdate, Function.update_apply]

/-- What a pack that was built from an entry adds to a view. -/
def View.addBuilt (env : Environment) (flags : Flags) (source : String) (entry : String × Json)
    (pack : Pack) (v : View) : View where
  packs := v.packs.filter (fun p => !isRemoved entry.1 source p) ++ [pack]
  files := Function.update v.files (packKey flags source entry.1)
    (if pack.shouldPackExecute env.discovered then fileCategories env entry.2
    else if v.packs.any (isRemoved entry.1 source) then ∅
    else v.files (packKey flags source entry.1))

theorem View.addBuilt_files (env : Environment) (flags : Flags) (source : String)
    (entry : String × Json) (pack : Pack) (v : View) (k : String) :
    (v.addBuilt env flags source entry pack).files k =
      if k = packKey flags source entry.1 then
        (if pack.shouldPackExecute env.discovered then fileCategories env entry.2
        else if v.packs.any (isRemoved entry.1 source) then ∅
        else v.files (packKey flags source entry.1))
      else v.files k :=
  Function.update_apply _ _ _ _

/-- What an entry of a document adds to a view. -/
def View.addEntry (env : Environment) (flags : Flags) (source : String) (v : View)
    (entry : String × Json) : View :=
  match initializePack env.host flags.schedule_default_interval entry.1 source entry.2 with
  | none => v
  | some pack => v.addBuilt env flags source entry pack

theorem addSinglePack_quiet (env : Environment) {st : ConfigState} {entry : String × Json}
    (source : String) (hst : Quiet st) (hobj : ¬SetsFlags entry.2) :
    Steps st (addSinglePack env source st entry)
      (st.view.addEntry env st.flags source entry) := by
  rw [addSinglePack, View.addEntry]
  cases hpack : initializePack env.host st.flags.schedule_default_interval entry.1 source
      entry.2 with
  | none => exact ⟨rfl, rfl, rfl, hst⟩
  | some pack =>
      obtain ⟨hname, hsource⟩ := initializePack_name hpack
      let key := packKey st.flags source entry.1
      let added : ConfigState :=
        { st with
          schedule := st.schedule.add pack
          files := if st.schedule.packs.any (isRemoved entry.1 source) then
            removeFiles key st.files else st.files }
      have hpacks : added.view.packs =
          st.view.packs.filter (fun p => !isRemoved entry.1 source p) ++ [pack] := by
        change (st.schedule.add pack).packs = _
        simp only [PackList.add, PackList.remove, hname, hsource]
        rfl
      have hfiles : added.view.files = Function.update st.view.files key
          (if st.view.packs.any (isRemoved entry.1 source) then ∅ else st.view.files key) := by
        change watched (if st.schedule.packs.any (isRemoved entry.1 source) then
          removeFiles key st.files else st.files) = _
        by_cases hany : st.schedule.packs.any (isRemoved entry.1 source) = true
        · rw [if_pos hany]
          simp only [ConfigState.view, hany, if_true]
          funext k
          rw [watched_removeFiles, Function.update_apply]
        · rw [if_neg hany]
          simp only [ConfigState.view, hany, Bool.false_eq_true, if_false]
          exact (Function.update_eq_self _ _).symm
      change Steps st
        (if pack.shouldPackExecute env.discovered then applyParsers env key entry.2 added
          else added) (st.view.addBuilt env st.flags source entry pack)
      rw [View.addBuilt]
      by_cases hexecute : pack.shouldPackExecute env.discovered = true
      · obtain ⟨hview, hflags, hhash, hquiet⟩ :=
          applyParsers_quiet env key (show Quiet added from hst) hobj
        rw [if_pos hexecute, if_pos hexecute]
        refine ⟨?_, hflags, hhash, hquiet⟩
        rw [hview, View.fill, hpacks, hfiles, Function.update_idem]
      · rw [if_neg hexecute, if_neg hexecute, ← hpacks, ← hfiles]
        exact ⟨rfl, rfl, rfl, hst⟩

/-! ### Contributions -/

/-- What a document contributes to an empty configuration. -/
def contribution (env : Environment) (flags : Flags) (source : String) (doc : Json) : View :=
  ((documentEntries env doc).foldl (View.addEntry env flags source) ⟨[], fun _ => ∅⟩).fill source
    (fileCategories env doc)

/-- Neither the document nor a pack of it names one of the flags. -/
def DocumentQuiet (env : Environment) (doc : Json) : Prop :=
  ¬SetsFlags doc ∧ ∀ entry ∈ documentEntries env doc, ¬SetsFlags entry.2

theorem foldl_addSinglePack_quiet (source : String) {entries : List (String × Json)}
    (hentries : ∀ entry ∈ entries, ¬SetsFlags entry.2) {st : ConfigState} (hst : Quiet st) :
    Steps st (entries.foldl (addSinglePack env source) st)
      (entries.foldl (View.addEntry env st.flags source) st.view) := by
  induction entries generalizing st with
  | nil => exact ⟨rfl, rfl, rfl, hst⟩
  | cons entry rest ih =>
      obtain ⟨hview, hflags, hhash, hquiet⟩ :=
        addSinglePack_quiet env source hst (hentries entry List.mem_cons_self)
      obtain ⟨hview', hflags', hhash', hquiet'⟩ :=
        ih (fun e he => hentries e (List.mem_cons_of_mem _ he)) hquiet
      rw [List.foldl_cons, List.foldl_cons]
      rw [hview, hflags] at hview'
      exact ⟨hview', hflags'.trans hflags, hhash'.trans hhash, hquiet'⟩

theorem addDocument_quiet (source : String) {doc : Json} (hdoc : DocumentQuiet env doc)
    {st : ConfigState} (hst : Quiet st) :
    Steps st (addDocument env source doc st)
      (((documentEntries env doc).foldl (View.addEntry env st.flags source) st.view).fill source
        (fileCategories env doc)) := by
  rw [addDocument_eq]
  obtain ⟨hview, hflags, hhash, hquiet⟩ := foldl_addSinglePack_quiet source hdoc.2 hst
  obtain ⟨hview', hflags', hhash', hquiet'⟩ := applyParsers_quiet env source hquiet hdoc.1
  rw [hview] at hview'
  exact ⟨hview', hflags'.trans hflags, hhash'.trans hhash, hquiet'⟩

/-! ### Entries of the watched files -/

section Entries

variable (env) (flags : Flags)

/-- The entries of the watched files that a document empties or fills. -/
def touchedKeys (source : String) (doc : Json) : List String :=
  source :: (documentEntries env doc).map fun entry => packKey flags source entry.1

/-- The document lists files for an entry of the watched files. -/
def Fills (source : String) (doc : Json) (k : String) : Prop :=
  (k = source ∧ listedFiles env doc ≠ []) ∨
    ∃ entry ∈ documentEntries env doc,
      k = packKey flags source entry.1 ∧ listedFiles env entry.2 ≠ []

/-- A view made from some entries of a document. -/
structure BuiltFrom (source : String) (entries : List (String × Json)) (v : View) : Prop where
  source_eq : ∀ p ∈ v.packs, p.source = source
  name_mem : ∀ p ∈ v.packs, ∃ entry ∈ entries, p.name = entry.1
  owned : ∀ k, v.files k ≠ ∅ → ∃ p ∈ v.packs, k = packKey flags source p.name
  filled : ∀ k, v.files k ≠ ∅ →
    ∃ entry ∈ entries, k = packKey flags source entry.1 ∧ listedFiles env entry.2 ≠ []

variable {env flags}

theorem listedFiles_ne_nil {obj : Json} (h : fileCategories env obj ≠ ∅) :
    listedFiles env obj ≠ [] := by
  intro hnil
  rw [fileCategories, hnil] at h
  exact h rfl

theorem BuiltFrom.addBuilt {source : String} {entries : List (String × Json)} {v : View}
    (h : BuiltFrom env flags source entries v) {entry : String × Json} (hentry : entry ∈ entries)
    {pack : Pack} (hname : pack.name = entry.1) (hsource : pack.source = source) :
    BuiltFrom env flags source entries (v.addBuilt env flags source entry pack) := by
  have hmem : ∀ p ∈ (v.addBuilt env flags source entry pack).packs, p ∈ v.packs ∨ p = pack := by
    intro p hp
    rcases List.mem_append.mp hp with hp | hp
    · exact Or.inl (List.mem_filter.mp hp).1
    · exact Or.inr (List.mem_singleton.mp hp)
  have hpack : pack ∈ (v.addBuilt env flags source entry pack).packs :=
    List.mem_append_right _ (List.mem_singleton.mpr rfl)
  have hfiles : ∀ k, k ≠ packKey flags source entry.1 →
      (v.addBuilt env flags source entry pack).files k = v.files k :=
    fun k hk => Function.update_of_ne hk _ _
  constructor
  · intro p hp
    rcases hmem p hp with hp | rfl
    · exact h.source_eq p hp
    · exact hsource
  · intro p hp
    rcases hmem p hp with hp | rfl
    · exact h.name_mem p hp
    · exact ⟨entry, hentry, hname⟩
  · intro k hk
    by_cases hkey : k = packKey flags source entry.1
    · exact ⟨pack, hpack, by rw [hkey, hname]⟩
    · rw [hfiles k hkey] at hk
      obtain ⟨p, hp, rfl⟩ := h.owned k hk
      refine ⟨p, List.mem_append_left _ (List.mem_filter.mpr ⟨hp, ?_⟩), rfl⟩
      have hne : p.name ≠ entry.1 := fun heq => hkey (by rw [heq])
      simp [isRemoved, hne]
  · intro k hk
    by_cases hkey : k = packKey flags source entry.1
    · subst hkey
      rw [View.addBuilt_files, if_pos rfl] at hk
      split_ifs at hk
      · exact ⟨entry, hentry, rfl, listedFiles_ne_nil hk⟩
      · exact absurd rfl hk
      · exact h.filled _ hk
    · rw [hfiles k hkey] at hk
      exact h.filled k hk

theorem BuiltFrom.addEntry {source : String} {entries : List (String × Json)} {v : View}
    (h : BuiltFrom env flags source entries v) {entry : String × Json}
    (hentry : entry ∈ entries) :
    BuiltFrom env flags source entries (v.addEntry env flags source entry) := by
  rw [View.addEntry]
  split
  · exact h
  · rename_i pack hpack
    obtain ⟨hname, hsource⟩ := initializePack_name hpack
    exact h.addBuilt hentry hname hsource

theorem BuiltFrom.foldl {source : String} {entries added : List (String × Json)} {v : View}
    (h : BuiltFrom env flags source entries v) (hadded : ∀ entry ∈ added, entry ∈ entries) :
    BuiltFrom env flags source entries (added.foldl (View.addEntry env flags source) v) := by
  induction added generalizing v with
  | nil => exact h
  | cons entry rest ih =>
      exact ih (h.addEntry (hadded entry List.mem_cons_self))
        fun e he => hadded e (List.mem_cons_of_mem _ he)

theorem builtFrom_entries (env : Environment) (flags : Flags) (source : String) (doc : Json) :
    BuiltFrom env flags source (documentEntries env doc)
      ((documentEntries env doc).foldl (View.addEntry env flags source) ⟨[], fun _ => ∅⟩) := by
  apply BuiltFrom.foldl _ fun _ he => he
  constructor
  · exact fun p hp => absurd hp List.not_mem_nil
  · exact fun p hp => absurd hp List.not_mem_nil
  · exact fun k hk => absurd rfl hk
  · exact fun k hk => absurd rfl hk

theorem contribution_source {source : String} {doc : Json} {p : Pack}
    (hp : p ∈ (contribution env flags source doc).packs) : p.source = source :=
  (builtFrom_entries env flags source doc).source_eq p hp

theorem contribution_key_mem {source : String} {doc : Json} {p : Pack}
    (hp : p ∈ (contribution env flags source doc).packs) :
    packKey flags source p.name ∈ touchedKeys env flags source doc := by
  obtain ⟨entry, hentry, heq⟩ := (builtFrom_entries env flags source doc).name_mem p hp
  rw [heq]
  exact List.mem_cons_of_mem _ (List.mem_map.mpr ⟨entry, hentry, rfl⟩)

/-- An entry that a document fills is its own or that of one of its packs. -/
theorem contribution_owned {source : String} {doc : Json} {k : String}
    (hk : (contribution env flags source doc).files k ≠ ∅) :
    k = source ∨
      ∃ p ∈ (contribution env flags source doc).packs, k = packKey flags source p.name := by
  by_cases hsource : k = source
  · exact Or.inl hsource
  · rw [contribution, View.fill_files, if_neg hsource] at hk
    exact Or.inr ((builtFrom_entries env flags source doc).owned k hk)

theorem contribution_fills {source : String} {doc : Json} {k : String}
    (hk : (contribution env flags source doc).files k ≠ ∅) : Fills env flags source doc k := by
  by_cases hsource : k = source
  · subst hsource
    rw [contribution, View.fill_files, if_pos rfl] at hk
    exact Or.inl ⟨rfl, listedFiles_ne_nil hk⟩
  · rw [contribution, View.fill_files, if_neg hsource] at hk
    exact Or.inr ((builtFrom_entries env flags source doc).filled k hk)

theorem mem_touchedKeys_of_contribution {source : String} {doc : Json} {k : String}
    (hk : (contribution env flags source doc).files k ≠ ∅) :
    k ∈ touchedKeys env flags source doc := by
  rcases contribution_owned hk with rfl | ⟨p, hp, rfl⟩
  · exact List.mem_cons_self
  · exact contribution_key_mem hp

end Entries

/-! ### Adding a document to a configuration -/

/-- A view that is a base with the contribution of one source on top. -/
def Extends (base : View) (keys : List String) (v v₀ : View) : Prop :=
  v.packs = base.packs ++ v₀.packs ∧
    ∀ k, v.files k = if k ∈ keys then v₀.files k else base.files k

theorem Extends.fill {base v v₀ : View} {keys : List String} (h : Extends base keys v v₀)
    {source : String} (hsource : source ∈ keys) (categories : FileCategories) :
    Extends base keys (v.fill source categories) (v₀.fill source categories) := by
  refine ⟨h.1, ?_⟩
  intro k
  rw [View.fill_files, View.fill_files]
  by_cases hk : k = source
  · rw [if_pos hk, if_pos hk, if_pos (hk ▸ hsource)]
  · rw [if_neg hk, if_neg hk, h.2 k]

/-- A pack of another source is never removed with one of this source. -/
theorem not_isRemoved {name source : String} {p : Pack} (hsource : source ≠ "")
    (hp : p.source ≠ source) : isRemoved name source p = false := by
  simp [isRemoved, hsource, hp]

theorem Extends.addEntry {base v v₀ : View} {keys : List String} (h : Extends base keys v v₀)
    {flags : Flags} {source : String} (hsource : source ≠ "")
    (hbase : ∀ p ∈ base.packs, p.source ≠ source) {entry : String × Json}
    (hkey : packKey flags source entry.1 ∈ keys) :
    Extends base keys (v.addEntry env flags source entry)
      (v₀.addEntry env flags source entry) := by
  rw [View.addEntry, View.addEntry]
  split
  · exact h
  · rename_i pack hpack
    have hfilter : base.packs.filter (fun p => !isRemoved entry.1 source p) = base.packs := by
      apply List.filter_eq_self.mpr
      intro p hp
      rw [not_isRemoved hsource (hbase p hp)]
      rfl
    have hany : v.packs.any (isRemoved entry.1 source) =
        v₀.packs.any (isRemoved entry.1 source) := by
      have hnone : base.packs.any (isRemoved entry.1 source) = false := by
        rw [List.any_eq_false]
        intro p hp
        simp [not_isRemoved hsource (hbase p hp)]
      rw [h.1, List.any_append, hnone, Bool.false_or]
    constructor
    · simp only [View.addBuilt, h.1, List.filter_append, hfilter, List.append_assoc]
    · intro k
      rw [View.addBuilt_files, View.addBuilt_files, hany, h.2 (packKey flags source entry.1),
        if_pos hkey]
      by_cases hk : k = packKey flags source entry.1
      · have hmem : k ∈ keys := hk ▸ hkey
        rw [if_pos hk, if_pos hk, if_pos hmem]
      · rw [if_neg hk, if_neg hk, h.2 k]

theorem Extends.foldl {base v v₀ : View} {keys : List String} (h : Extends base keys v v₀)
    {flags : Flags} {source : String} (hsource : source ≠ "")
    (hbase : ∀ p ∈ base.packs, p.source ≠ source) {entries : List (String × Json)}
    (hkeys : ∀ entry ∈ entries, packKey flags source entry.1 ∈ keys) :
    Extends base keys (entries.foldl (View.addEntry env flags source) v)
      (entries.foldl (View.addEntry env flags source) v₀) := by
  induction entries generalizing v v₀ with
  | nil => exact h
  | cons entry rest ih =>
      exact ih (h.addEntry hsource hbase (hkeys entry List.mem_cons_self))
        fun e he => hkeys e (List.mem_cons_of_mem _ he)

/-- A document adds its contribution to a configuration that has nothing of its
source and nothing under the entries it touches. -/
theorem extends_document {flags : Flags} {source : String} {doc : Json} {base : View}
    (hsource : source ≠ "") (hbase : ∀ p ∈ base.packs, p.source ≠ source)
    (hfree : ∀ k ∈ touchedKeys env flags source doc, base.files k = ∅) :
    Extends base (touchedKeys env flags source doc)
      (((documentEntries env doc).foldl (View.addEntry env flags source) base).fill source
        (fileCategories env doc))
      (contribution env flags source doc) := by
  have hstart : Extends base (touchedKeys env flags source doc) base ⟨[], fun _ => ∅⟩ := by
    refine ⟨(List.append_nil _).symm, ?_⟩
    intro k
    split_ifs with hk
    · exact hfree k hk
    · rfl
  apply Extends.fill _ List.mem_cons_self
  apply hstart.foldl hsource hbase
  intro entry hentry
  exact List.mem_cons_of_mem _ (List.mem_map.mpr ⟨entry, hentry, rfl⟩)

/-! ### Removing a source -/

/-- What is left of a view without the packs and the entries of a source. -/
def View.without (flags : Flags) (source : String) (v : View) : View where
  packs := v.packs.filter fun p => p.source ≠ source
  files k :=
    if k = source ∨ ∃ p ∈ v.packs, p.source = source ∧ k = packKey flags source p.name then ∅
    else v.files k

theorem watched_foldl_removeFiles {α : Type} (key : α → String) (removed : List α) (files : Files)
    (k : String) :
    watched (removed.foldl (fun files a => removeFiles (key a) files) files) k =
      if ∃ a ∈ removed, k = key a then ∅ else watched files k := by
  induction removed generalizing files with
  | nil => simp
  | cons a rest ih =>
      rw [List.foldl_cons, ih, watched_removeFiles]
      simp only [List.mem_cons, exists_eq_or_imp]
      by_cases hrest : ∃ b ∈ rest, k = key b
      · rw [if_pos hrest, if_pos (Or.inr hrest)]
      · simp only [hrest, if_false, or_false]

theorem removeSource_view (source : String) (st : ConfigState) :
    (removeSource source st).view = st.view.without st.flags source := by
  have hfiles : (removeSource source st).view.files =
      (st.view.without st.flags source).files := by
    funext k
    change watched (removeFiles source _) k =
      if k = source ∨ ∃ p ∈ st.schedule.packs, p.source = source ∧
        k = packKey st.flags source p.name then ∅ else watched st.files k
    rw [watched_removeFiles, watched_foldl_removeFiles]
    simp only [List.mem_filter, decide_eq_true_eq, and_assoc]
    by_cases hk : k = source
    · rw [if_pos hk, if_pos (Or.inl hk)]
    · simp only [hk, if_false, false_or]
  exact View.mk.injEq _ _ _ _ ▸ ⟨rfl, hfiles⟩

/-! ### Runs of updates -/

/-- What a content contributes to an empty configuration. -/
def contentView (env : Environment) (flags : Flags) (u : String × String) : View :=
  match parseObject env u.2 with
  | none => ⟨[], fun _ => ∅⟩
  | some doc => contribution env flags u.1 doc

/-- Updates of named sources with contents that parse and are told apart by
their digests. -/
structure WellFormed (env : Environment) (updates : List (String × String)) : Prop where
  source_ne : ∀ u ∈ updates, u.1 ≠ ""
  parses : ∀ u ∈ updates, ∃ doc, parseObject env u.2 = some doc
  digest_ne : ∀ u ∈ updates, env.digest u.2 ≠ ""
  digest_inj : ∀ u ∈ updates, ∀ v ∈ updates, env.digest u.2 = env.digest v.2 → u.2 = v.2

/-- No content sets a flag that the configuration reads, and no content touches
an entry of the watched files that a content of another source fills. -/
structure Separate (env : Environment) (flags : Flags) (updates : List (String × String)) :
    Prop where
  quiet : ∀ u ∈ updates, ∀ doc, parseObject env u.2 = some doc → DocumentQuiet env doc
  apart : ∀ u ∈ updates, ∀ v ∈ updates, u.1 ≠ v.1 → ∀ doc, parseObject env u.2 = some doc →
    ∀ doc', parseObject env v.2 = some doc' →
      ∀ k ∈ touchedKeys env flags u.1 doc, ¬Fills env flags v.1 doc' k

theorem WellFormed.subset {updates updates' : List (String × String)}
    (h : WellFormed env updates) (hsub : ∀ u ∈ updates', u ∈ updates) :
    WellFormed env updates' :=
  ⟨fun u hu => h.source_ne u (hsub u hu), fun u hu => h.parses u (hsub u hu),
    fun u hu => h.digest_ne u (hsub u hu),
    fun u hu v hv => h.digest_inj u (hsub u hu) v (hsub v hv)⟩

theorem Separate.subset {flags : Flags} {updates updates' : List (String × String)}
    (h : Separate env flags updates) (hsub : ∀ u ∈ updates', u ∈ updates) :
    Separate env flags updates' :=
  ⟨fun u hu => h.quiet u (hsub u hu), fun u hu v hv => h.apart u (hsub u hu) v (hsub v hv)⟩

/-- A configuration is the sum of the present contents of its sources. -/
structure Represents (env : Environment) (flags : Flags) (order : List (String × String))
    (st : ConfigState) : Prop where
  packs : st.view.packs = order.flatMap fun u => (contentView env flags u).packs
  own : ∀ u ∈ order, ∀ k, (contentView env flags u).files k ≠ ∅ →
    st.view.files k = (contentView env flags u).files k
  rest : ∀ k, (∀ u ∈ order, (contentView env flags u).files k = ∅) → st.view.files k = ∅
  hash : ∀ u ∈ order, st.hash.getD u.1 "" = env.digest u.2
  hash_rest : ∀ source, (∀ u ∈ order, u.1 ≠ source) → st.hash.getD source "" = ""
  flags : st.flags = flags
  quiet : Quiet st

/-- The present contents determine what is seen of the configuration. -/
theorem Represents.view_unique {flags : Flags} {order : List (String × String)}
    {st st' : ConfigState} (h : Represents env flags order st)
    (h' : Represents env flags order st') : st.view = st'.view := by
  have hfiles : st.view.files = st'.view.files := by
    funext k
    by_cases hrest : ∀ u ∈ order, (contentView env flags u).files k = ∅
    · rw [h.rest k hrest, h'.rest k hrest]
    · push Not at hrest
      obtain ⟨u, hu, hk⟩ := hrest
      rw [h.own u hu k hk, h'.own u hu k hk]
  have hpacks : st.view.packs = st'.view.packs := h.packs.trans h'.packs.symm
  exact View.mk.injEq _ _ _ _ ▸ ⟨hpacks, hfiles⟩

theorem represents_reset (env : Environment) (flags : Flags) :
    Represents env flags [] (ConfigState.reset flags) := by
  constructor
  · rfl
  · exact fun u hu => absurd hu List.not_mem_nil
  · intro k _
    change (∅ : Files).getD k ∅ = ∅
    exact Std.ExtTreeMap.getD_empty
  · exact fun u hu => absurd hu List.not_mem_nil
  · intro source _
    change (∅ : Std.ExtTreeMap String String).getD source "" = ""
    exact Std.ExtTreeMap.getD_empty
  · rfl
  · exact fun option hoption => absurd hoption List.not_mem_nil

theorem contentView_source {flags : Flags} {u : String × String} {p : Pack}
    (hp : p ∈ (contentView env flags u).packs) : p.source = u.1 := by
  rw [contentView] at hp
  split at hp
  · exact absurd hp List.not_mem_nil
  · exact contribution_source hp

/-- Two contents of different sources of a history do not meet. -/
theorem Separate.free {flags : Flags} {updates : List (String × String)}
    (h : Separate env flags updates) {u v : String × String} (hu : u ∈ updates)
    (hv : v ∈ updates) (hne : u.1 ≠ v.1) {doc : Json} (hdoc : parseObject env u.2 = some doc)
    {k : String} (hk : k ∈ touchedKeys env flags u.1 doc) :
    (contentView env flags v).files k = ∅ := by
  by_contra hfull
  rw [contentView] at hfull
  split at hfull
  · exact hfull rfl
  · rename_i doc' hdoc'
    exact h.apart u hu v hv hne doc hdoc doc' hdoc' k hk (contribution_fills hfull)

theorem contentView_owned {flags : Flags} {u : String × String} {k : String}
    (hk : (contentView env flags u).files k ≠ ∅) :
    k = u.1 ∨ ∃ p ∈ (contentView env flags u).packs, k = packKey flags u.1 p.name := by
  rw [contentView] at hk ⊢
  split at hk
  · exact absurd rfl hk
  · exact contribution_owned hk

theorem Separate.free_pack {flags : Flags} {updates : List (String × String)}
    (h : Separate env flags updates) {u v : String × String} (hu : u ∈ updates)
    (hv : v ∈ updates) (hne : u.1 ≠ v.1) {p : Pack} (hp : p ∈ (contentView env flags u).packs) :
    (contentView env flags v).files (packKey flags u.1 p.name) = ∅ := by
  rw [contentView] at hp
  split at hp
  · exact absurd hp List.not_mem_nil
  · rename_i doc hdoc
    exact h.free hu hv hne hdoc (contribution_key_mem hp)

/-- The packs of a source are the packs of its content. -/
theorem filter_contentView (flags : Flags) (source : String) (order : List (String × String)) :
    (order.flatMap fun v => (contentView env flags v).packs).filter (fun p => p.source ≠ source) =
      (order.filter fun v => v.1 ≠ source).flatMap fun v => (contentView env flags v).packs := by
  induction order with
  | nil => rfl
  | cons v rest ih =>
      rw [List.flatMap_cons, List.filter_append, ih, List.filter_cons]
      by_cases hv : v.1 = source
      · have hnone : (contentView env flags v).packs.filter (fun p => p.source ≠ source) = [] := by
          apply List.filter_eq_nil_iff.mpr
          intro p hp
          simp [contentView_source hp, hv]
        rw [hnone, if_neg (by simp [hv]), List.nil_append]
      · have hall : (contentView env flags v).packs.filter (fun p => p.source ≠ source) =
            (contentView env flags v).packs := by
          apply List.filter_eq_self.mpr
          intro p hp
          simp [contentView_source hp, hv]
        rw [hall, if_pos (by simp [hv]), List.flatMap_cons]

/-! ### One update -/

section Update

variable {flags : Flags} {order updates : List (String × String)} {st : ConfigState}
  {u : String × String} {doc : Json}

/-- The entries of the other sources stay. -/
theorem Represents.without_own (h : Represents env flags order st)
    (hsep : Separate env flags updates) (hmem : ∀ v ∈ order, v ∈ updates) (hu : u ∈ updates)
    (hdoc : parseObject env u.2 = some doc) {v : String × String} (hv : v ∈ order)
    (hne : v.1 ≠ u.1) {k : String} (hk : (contentView env flags v).files k ≠ ∅) :
    (st.view.without flags u.1).files k = (contentView env flags v).files k := by
  change (if k = u.1 ∨ ∃ p ∈ st.view.packs, p.source = u.1 ∧ k = packKey flags u.1 p.name then ∅
    else st.view.files k) = _
  rw [if_neg, h.own v hv k hk]
  rintro (rfl | ⟨p, hp, hsource, rfl⟩)
  · exact hk (hsep.free hu (hmem v hv) (Ne.symm hne) hdoc List.mem_cons_self)
  · rw [h.packs] at hp
    obtain ⟨w, hw, hpw⟩ := List.mem_flatMap.mp hp
    have hwu : w.1 = u.1 := (contentView_source hpw).symm.trans hsource
    rw [← hwu] at hk hne
    exact hk (hsep.free_pack (hmem w hw) (hmem v hv) (Ne.symm hne) hpw)

/-- Every entry of the source itself is emptied. -/
theorem Represents.without_rest (h : Represents env flags order st) {k : String}
    (hk : ∀ v ∈ order, v.1 ≠ u.1 → (contentView env flags v).files k = ∅) :
    (st.view.without flags u.1).files k = ∅ := by
  change (if k = u.1 ∨ ∃ p ∈ st.view.packs, p.source = u.1 ∧ k = packKey flags u.1 p.name then ∅
    else st.view.files k) = ∅
  split
  · rfl
  · rename_i hkeep
    apply h.rest
    intro v hv
    by_cases hne : v.1 = u.1
    · by_contra hfull
      apply hkeep
      rcases contentView_owned hfull with rfl | ⟨p, hp, rfl⟩
      · exact Or.inl hne
      · refine Or.inr ⟨p, ?_, (contentView_source hp).trans hne, by rw [hne]⟩
        rw [h.packs]
        exact List.mem_flatMap.mpr ⟨v, hv, hp⟩
    · exact hk v hv hne

/-- The digests of the contents after a change. -/
theorem Represents.hash_insert (h : Represents env flags order st) {v : String × String}
    (hv : v ∈ order.filter (fun v => v.1 ≠ u.1) ++ [u]) :
    (st.hash.insert u.1 (env.digest u.2)).getD v.1 "" = env.digest v.2 := by
  rcases List.mem_append.mp hv with hv | hv
  · obtain ⟨hv, hne⟩ := List.mem_filter.mp hv
    have hne : u.1 ≠ v.1 := fun heq => by simp [heq] at hne
    rw [Std.ExtTreeMap.getD_insert, if_neg (by simpa using hne), h.hash v hv]
  · obtain rfl := List.mem_singleton.mp hv
    rw [Std.ExtTreeMap.getD_insert_self]

theorem Represents.hash_insert_rest (h : Represents env flags order st) {source : String}
    (hrest : ∀ v ∈ order.filter (fun v => v.1 ≠ u.1) ++ [u], v.1 ≠ source) :
    (st.hash.insert u.1 (env.digest u.2)).getD source "" = "" := by
  have hne : u.1 ≠ source := hrest u (List.mem_append_right _ (List.mem_singleton.mpr rfl))
  rw [Std.ExtTreeMap.getD_insert, if_neg (by simpa using hne)]
  apply h.hash_rest
  intro v hv heq
  apply hrest v (List.mem_append_left _ (List.mem_filter.mpr ⟨hv, ?_⟩)) heq
  simpa [heq] using fun e => hne e.symm

/-- A changed content takes the place of the one before. -/
theorem Represents.replace (h : Represents env flags order st)
    (hsep : Separate env flags updates) (hmem : ∀ v ∈ order, v ∈ updates) (hu : u ∈ updates)
    (hsource : u.1 ≠ "") (hdoc : parseObject env u.2 = some doc) :
    Represents env flags (order.filter (fun v => v.1 ≠ u.1) ++ [u])
      (addDocument env u.1 doc (removeSource u.1
        { st with hash := st.hash.insert u.1 (env.digest u.2) })) := by
  let removed := removeSource u.1 { st with hash := st.hash.insert u.1 (env.digest u.2) }
  have hremoved : removed.view = st.view.without flags u.1 := by
    have hview := removeSource_view u.1 { st with hash := st.hash.insert u.1 (env.digest u.2) }
    rw [hview, ← h.flags]
    rfl
  have hflags : removed.flags = flags := h.flags
  have hquiet : Quiet removed := h.quiet
  have hbase : ∀ p ∈ removed.view.packs, p.source ≠ u.1 := by
    intro p hp
    rw [hremoved] at hp
    simpa using (List.mem_filter.mp hp).2
  have hcontent : contentView env flags u = contribution env flags u.1 doc := by
    rw [contentView, hdoc]
  have hfree : ∀ k ∈ touchedKeys env flags u.1 doc, removed.view.files k = ∅ := by
    intro k hk
    rw [hremoved]
    apply h.without_rest
    intro v hv hne
    exact hsep.free hu (hmem v hv) (Ne.symm hne) hdoc hk
  obtain ⟨hview, hflags', hhash, hquiet'⟩ :=
    addDocument_quiet u.1 (hsep.quiet u hu doc hdoc) hquiet
  obtain ⟨hpacks, hfiles⟩ := extends_document hsource hbase hfree
  rw [hflags] at hview
  rw [← hview] at hpacks hfiles
  have hhash' : (addDocument env u.1 doc removed).hash = st.hash.insert u.1 (env.digest u.2) :=
    hhash
  constructor
  · rw [hpacks, hremoved, List.flatMap_append, List.flatMap_cons, List.flatMap_nil,
      List.append_nil, hcontent, View.without, h.packs, filter_contentView]
  · intro v hv k hk
    rcases List.mem_append.mp hv with hv | hv
    · obtain ⟨hv, hne⟩ := List.mem_filter.mp hv
      have hne : v.1 ≠ u.1 := by simpa using hne
      rw [hfiles k, if_neg, hremoved, h.without_own hsep hmem hu hdoc hv hne hk]
      exact fun hmem' => hk (hsep.free hu (hmem v hv) (Ne.symm hne) hdoc hmem')
    · obtain rfl := List.mem_singleton.mp hv
      rw [hcontent] at hk ⊢
      rw [hfiles k, if_pos (mem_touchedKeys_of_contribution hk)]
  · intro k hk
    rw [hfiles k]
    split
    · rw [← hcontent]
      exact hk u (List.mem_append_right _ (List.mem_singleton.mpr rfl))
    · rw [hremoved]
      apply h.without_rest
      intro v hv hne
      exact hk v (List.mem_append_left _ (List.mem_filter.mpr ⟨hv, by simpa using hne⟩))
  · intro v hv
    rw [hhash', h.hash_insert hv]
  · intro source hrest
    rw [hhash', h.hash_insert_rest hrest]
  · exact hflags'.trans hflags
  · exact hquiet'

/-- One update moves its source to the end of the contents, or changes nothing. -/
theorem Represents.update (h : Represents env flags order st)
    (hwf : WellFormed env updates) (hsep : Separate env flags updates)
    (hmem : ∀ v ∈ order, v ∈ updates) (hu : u ∈ updates) :
    Represents env flags (change order u) (updateSource env u.1 u.2 st).2 := by
  obtain ⟨doc, hdoc⟩ := hwf.parses u hu
  rw [updateSource]
  by_cases hhash : st.hash.getD u.1 "" = env.digest u.2
  · have hpresent : u ∈ order := by
      by_contra habsent
      have hother : ∀ v ∈ order, v.1 ≠ u.1 := by
        intro v hv heq
        have hdigest : env.digest v.2 = env.digest u.2 := by
          rw [← h.hash v hv, heq, hhash]
        have hcontent := hwf.digest_inj v (hmem v hv) u hu hdigest
        exact habsent (Prod.ext heq hcontent ▸ hv)
      rw [h.hash_rest u.1 hother] at hhash
      exact hwf.digest_ne u hu hhash.symm
    rw [if_pos hhash, change, if_pos hpresent]
    exact h
  · have habsent : u ∉ order := fun hpresent => hhash (h.hash u hpresent)
    rw [if_neg hhash, change, if_neg habsent]
    simp only [hdoc]
    exact h.replace hsep hmem hu (hwf.source_ne u hu) hdoc

end Update

/-! ### History independence -/

/-- A sequence of updates. -/
def runUpdates (env : Environment) (updates : List (String × String)) (st : ConfigState) :
    ConfigState :=
  updates.foldl (fun st u => (updateSource env u.1 u.2 st).2) st

theorem represents_run {flags : Flags} {updates : List (String × String)}
    (hwf : WellFormed env updates) (hsep : Separate env flags updates) :
    Represents env flags (latest updates) (runUpdates env updates (ConfigState.reset flags)) := by
  induction updates using List.reverseRecOn with
  | nil => exact represents_reset env flags
  | append_singleton rest u ih =>
      have hsub : ∀ v ∈ rest, v ∈ rest ++ [u] := fun v hv => List.mem_append_left _ hv
      have hrest := ih (hwf.subset hsub) (hsep.subset hsub)
      rw [latest_concat, runUpdates, List.foldl_append, List.foldl_cons, List.foldl_nil]
      apply hrest.update hwf hsep
      · exact fun v hv => hsub v (mem_of_mem_latest hv)
      · exact List.mem_append_right _ (List.mem_singleton.mpr rfl)

/-- The same packs and the same files that are watched. -/
def SameConfiguration (st st' : ConfigState) : Prop :=
  st.schedule.packs = st'.schedule.packs ∧ ∀ k, watched st.files k = watched st'.files k

/-- A sequence of updates leaves what the last contents of the sources leave. -/
theorem history_independent (env : Environment) (flags : Flags)
    (updates : List (String × String)) (hwf : WellFormed env updates)
    (hsep : Separate env flags updates) :
    SameConfiguration (runUpdates env updates (ConfigState.reset flags))
      (runUpdates env (latest updates) (ConfigState.reset flags)) := by
  have hsub : ∀ u ∈ latest updates, u ∈ updates := fun u hu => mem_of_mem_latest hu
  have hrun := represents_run hwf hsep
  have hlast := represents_run (hwf.subset hsub) (hsep.subset hsub)
  rw [latest_latest] at hlast
  have hview := hrun.view_unique hlast
  exact ⟨congrArg View.packs hview, fun k => congrFun (congrArg View.files hview) k⟩

/-! ### Two sources -/

def watchText : String := "\x7b\"file_paths\":\x7b\"etc\":[\"/etc/hosts\"]\x7d\x7d"

def packText : String := "\x7b\"packs\":\x7b\"b\":\x7b\x7d\x7d\x7d"

def emptyText : String := "\x7b\x7d"

/-- The documents of the three texts. -/
def watchDocument : Json := .obj [("file_paths", .obj [("etc", .arr [.str "/etc/hosts"])])]

def packDocument : Json := .obj [("packs", .obj [("b", .obj [])])]

/-- A host that reads the three texts above. -/
def sampleEnvironment : Environment where
  host := ⟨0, true, true, "linux", "3.3.2", fun _ _ => 0⟩
  isExternal := false
  digest t :=
    if t = watchText then "3fd444396e55392f9b412009db9af5b219a6f9dc"
    else if t = packText then "04c0a17d7a953d814e096ece2687d12ed0e7db1c"
    else "bf21a9e8fbc5a3846fb05b4fa0859e0917b2202f"
  parse t :=
    if t = watchText ++ "\n" then some watchDocument
    else if t = packText ++ "\n" then some packDocument
    else if t = emptyText ++ "\n" then some (.obj [])
    else none
  write := reference.write
  genPack _ _ := none
  discovered queries := queries = []
  query _ := none
  replaceGlobWildcards path := path
  uint64Flag := Core.Conversions.lexicalCast

def sampleFlags : Flags := ⟨"_", 3600⟩

/-- The second source has a pack in its first content and nothing in its second. -/
def sampleUpdates (source source' : String) : List (String × String) :=
  [(source, watchText), (source', packText), (source', emptyText)]

theorem parseObject_watchText : parseObject sampleEnvironment watchText = some watchDocument := by
  have hstrip : cstr (stripConfigComments watchText) = watchText ++ "\n" := by decide +kernel
  rw [parseObject, hstrip]
  rfl

theorem parseObject_packText : parseObject sampleEnvironment packText = some packDocument := by
  have hstrip : cstr (stripConfigComments packText) = packText ++ "\n" := by decide +kernel
  rw [parseObject, hstrip]
  rfl

theorem parseObject_emptyText : parseObject sampleEnvironment emptyText = some (.obj []) := by
  have hstrip : cstr (stripConfigComments emptyText) = emptyText ++ "\n" := by decide +kernel
  rw [parseObject, hstrip]
  rfl

theorem sampleUpdates_wellFormed {source source' : String} (h : source ≠ "") (h' : source' ≠ "") :
    WellFormed sampleEnvironment (sampleUpdates source source') := by
  constructor
  · simp [sampleUpdates, h, h']
  · simp [sampleUpdates, parseObject_watchText, parseObject_packText, parseObject_emptyText]
  · simp only [sampleUpdates, List.forall_mem_cons, List.not_mem_nil, false_implies, implies_true,
      and_true]
    decide
  · simp only [sampleUpdates, List.forall_mem_cons, List.not_mem_nil, false_implies, implies_true,
      and_true]
    decide

theorem sampleUpdates_separate :
    Separate sampleEnvironment sampleFlags (sampleUpdates "x" "y") := by
  have hwatch : documentEntries sampleEnvironment watchDocument = [] := rfl
  have hpack : documentEntries sampleEnvironment packDocument = [("b", .obj [])] := rfl
  have hempty : documentEntries sampleEnvironment (.obj []) = [] := rfl
  have hlisted : listedFiles sampleEnvironment packDocument = [] := rfl
  have hlisted' : listedFiles sampleEnvironment (.obj []) = [] := rfl
  constructor
  · simp only [sampleUpdates, List.forall_mem_cons, List.not_mem_nil, false_implies, implies_true,
      and_true, parseObject_watchText, parseObject_packText, parseObject_emptyText,
      Option.some.injEq, forall_eq', DocumentQuiet, hwatch, hpack, hempty]
    simp [SetsFlags, parserMember?, member?, watchDocument, packDocument]
  · simp only [sampleUpdates, List.forall_mem_cons, List.not_mem_nil, false_implies, implies_true,
      and_true, parseObject_watchText, parseObject_packText, parseObject_emptyText,
      Option.some.injEq, forall_eq', touchedKeys, Fills, hwatch, hpack, hempty, hlisted, hlisted']
    simp [packKey, sampleFlags]

/-- The last contents of two sources that do not meet decide the configuration. -/
theorem history_independent_sample :
    SameConfiguration
      (runUpdates sampleEnvironment (sampleUpdates "x" "y") (ConfigState.reset sampleFlags))
      (runUpdates sampleEnvironment (latest (sampleUpdates "x" "y"))
        (ConfigState.reset sampleFlags)) :=
  history_independent sampleEnvironment sampleFlags (sampleUpdates "x" "y")
    (sampleUpdates_wellFormed (by decide) (by decide)) sampleUpdates_separate

/-- The source `a` loses a pack `b`, and with it what the source `a_b` watches. -/
theorem history_lost :
    WellFormed sampleEnvironment (sampleUpdates "a_b" "a") ∧
      ¬SameConfiguration
        (runUpdates sampleEnvironment (sampleUpdates "a_b" "a") (ConfigState.reset sampleFlags))
        (runUpdates sampleEnvironment (latest (sampleUpdates "a_b" "a"))
          (ConfigState.reset sampleFlags)) := by
  refine ⟨sampleUpdates_wellFormed (by decide) (by decide), ?_⟩
  intro h
  have hlost : (watched (runUpdates sampleEnvironment (sampleUpdates "a_b" "a")
      (ConfigState.reset sampleFlags)).files "a_b").toList = [] := by
    decide +kernel
  have hkept : (watched (runUpdates sampleEnvironment (latest (sampleUpdates "a_b" "a"))
      (ConfigState.reset sampleFlags)).files "a_b").toList = [("etc", ["/etc/hosts"])] := by
    decide +kernel
  rw [h.2 "a_b", hkept] at hlost
  exact List.cons_ne_nil _ _ hlost

end Osquery.Config
