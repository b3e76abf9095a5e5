import Osquery.EventPublishers.PathSet
import Osquery.Foundation.Separated
import Osquery.Foundation.TextSearch
import Mathlib.Data.List.Nodup
import Mathlib.Data.List.Perm.Subperm

/-!
# Recursive globbing

A pattern that ends in `**` is resolved level by level: one more `/**` is appended until a level
has no entries. The descent stops early when the inode of a directory was met before, which is
meant for loops of symbolic links, but inodes are compared narrowed to an `int` and without the
device. The whole tree is listed exactly when the directories above each entry have inodes that
differ in their low 32 bits.

## Implementation notes

The matches of a pattern and the results of `lstat` are inputs. A set of inodes is a list
without duplicates.
-/

namespace Osquery.Filesystem.Globs

open EventPublishers Foundation Foundation.Separated

structure Stat where
  st_mode : UInt32
  st_ino : UInt64

structure GlobSystem extends FileSystem where
  platformGlob : String → List String
  platformLstat : String → Option Stat

structure GlobLimits where
  files : Bool
  folders : Bool
  noCanon : Bool := false

def GLOB_ALL : GlobLimits := ⟨true, true, false⟩

def kMaxRecursiveGlobs : ℕ := 64

/-- `rfind`. -/
def rfind (pattern text : String) : Option ℕ :=
  (TextSearch.find pattern.toList.reverse text.toList.reverse).map
    fun fromEnd => text.toList.length - pattern.toList.length - fromEnd

def endsWithSlash (path : String) : Bool := path.toList.getLast? == some '/'

/-- An inode as an element of `std::set<int>`. -/
def narrow (st_ino : UInt64) : Int32 := st_ino.toUInt32.toInt32

def checkForLoops (fs : GlobSystem) (dsym_inos : List Int32) (path : String) :
    Bool × List Int32 :=
  if path = "" ∨ endsWithSlash path = false then (false, dsym_inos)
  else
    match fs.platformLstat (String.ofList path.toList.dropLast) with
    | none => (false, dsym_inos)
    | some d_stat =>
        if d_stat.st_mode &&& 0o170000 = 0 then (false, dsym_inos)
        else if narrow d_stat.st_ino ∈ dsym_inos then (true, dsym_inos)
        else (false, narrow d_stat.st_ino :: dsym_inos)

/-- The loop over the results of one pattern: whether a loop was detected, and the inodes. -/
def checkAll (fs : GlobSystem) : List Int32 → List String → Bool × List Int32
  | dsym_inos, [] => (false, dsym_inos)
  | dsym_inos, result_path :: glob_results =>
      let checked := checkForLoops fs dsym_inos result_path
      let rest := checkAll fs checked.2 glob_results
      (checked.1 || rest.1, rest.2)

/-- The pattern ends in `**`, or in `**` and one more character. -/
def endsRecursive (path : String) : Bool :=
  match rfind "**" path with
  | none => false
  | some wild => !(wild + 3 < path.toList.length)

/-- The loop of `genGlobs` with the rounds that are left. -/
def globLevels (fs : GlobSystem) : ℕ → String → List Int32 → List String
  | 0, _, _ => []
  | rounds + 1, path, dsym_inos =>
      let glob_results := fs.platformGlob path
      let checked := checkAll fs dsym_inos glob_results
      if glob_results = [] ∨ endsRecursive path = false then glob_results
      else if checked.1 then glob_results
      else glob_results ++ globLevels fs rounds (path ++ "/**") checked.2

/-- What the pruning keeps. -/
def GlobLimits.keeps (limits : GlobLimits) (found : String) : Bool :=
  let last := found.toList.getLast?
  if last = some '/' ∨ last = some '\\' then limits.folders else limits.files

def genGlobs (fs : GlobSystem) (path : String) (results : List String) (limits : GlobLimits) :
    List String :=
  let canonical := if limits.noCanon then id else fs.canonical
  let path := replaceGlobWildcards { fs.toFileSystem with canonical } path
  (results ++ globLevels fs (kMaxRecursiveGlobs - 1) path []).filter limits.keeps

def resolveFilePattern (fs : GlobSystem) (fs_path : String) (results : List String) : List String :=
  genGlobs fs fs_path results GLOB_ALL

/-! ### Directory trees -/

inductive Kind
  | directory (st_ino : UInt64)
  | other
  deriving DecidableEq

/-- An entry below a directory: the names on the way to it, and what it is. -/
structure Entry where
  components : List String
  kind : Kind
  deriving DecidableEq

/-- What is compared to detect loops. -/
def Entry.inode (e : Entry) : Option Int32 :=
  match e.kind with
  | .directory st_ino => some (narrow st_ino)
  | .other => none

/-- The entries below a directory, each with all the directories on the way to it. -/
structure Tree where
  entries : List Entry
  nodup : (entries.map Entry.components).Nodup
  components_ne_nil : ∀ e ∈ entries, e.components ≠ []
  names : ∀ e ∈ entries, ∀ name ∈ e.components, name ≠ "" ∧ '/' ∉ name.toList
  parents : ∀ e ∈ entries, e.components.length ≠ 1 →
    ∃ d ∈ entries, d.components = e.components.dropLast ∧ d.inode.isSome

/-- The path of the entry with these components below a directory. -/
def pathBelow (dir : String) (components : List String) : String :=
  dir ++ String.join (components.map ("/" ++ ·))

/-- An entry as it is listed: a directory has a slash at its end. -/
def Entry.path (dir : String) (e : Entry) : String :=
  match e.kind with
  | .directory _ => pathBelow dir e.components ++ "/"
  | .other => pathBelow dir e.components

namespace Tree

variable (tree : Tree)

def level (k : ℕ) : List Entry := tree.entries.filter (·.components.length = k)

/-- The entries at a level or below it. -/
def fromLevel (k : ℕ) : List Entry := tree.entries.filter (k ≤ ·.components.length)

/-- The inodes of the directories above a level. -/
def inodesAbove (k : ℕ) : List Int32 :=
  (tree.entries.filter (·.components.length < k)).filterMap Entry.inode

end Tree

/-- The pattern that matches the entries at a level. -/
def levelPattern (dir : String) (k : ℕ) : String := dir ++ String.join (List.replicate k "/**")

/-- A file system with a tree below a directory that is given by its canonical path. -/
structure Shows (fs : GlobSystem) (dir : String) (tree : Tree) : Prop where
  absolute : dir = "" ∨ dir.toList.head? = some '/'
  literal : ∀ c ∈ dir.toList, c ≠ '%' ∧ c ≠ '*'
  canonical : fs.canonical (dir ++ "/") = if dir = "" then "/" else dir
  isDirectory : dir ≠ "" → fs.isDirectory dir = true
  platformGlob : ∀ k, (fs.platformGlob (levelPattern dir (k + 1))).Perm
    ((tree.level (k + 1)).map (Entry.path dir))
  platformLstat : ∀ components st_ino, ⟨components, .directory st_ino⟩ ∈ tree.entries →
    ∃ st_mode, fs.platformLstat (pathBelow dir components) = some ⟨st_mode, st_ino⟩ ∧
      st_mode &&& 0o170000 ≠ 0

/-! ### Detecting loops -/

section Loops

variable (fs : GlobSystem)

/-- The inode that the loop detection looks up for a path. -/
def inodeOf (path : String) : Option Int32 :=
  if path = "" ∨ endsWithSlash path = false then none
  else
    (fs.platformLstat (String.ofList path.toList.dropLast)).bind fun d_stat =>
      if d_stat.st_mode &&& 0o170000 = 0 then none else some (narrow d_stat.st_ino)

theorem checkForLoops_eq (dsym_inos : List Int32) (path : String) :
    checkForLoops fs dsym_inos path =
      match inodeOf fs path with
      | none => (false, dsym_inos)
      | some ino => if ino ∈ dsym_inos then (true, dsym_inos) else (false, ino :: dsym_inos) := by
  rw [checkForLoops, inodeOf]
  split_ifs
  · rfl
  · cases fs.platformLstat (String.ofList path.toList.dropLast) with
    | none => rfl
    | some d_stat =>
        by_cases hformat : d_stat.st_mode &&& 0o170000 = 0
        · simp only [Option.bind_some, if_pos hformat]
        · simp only [Option.bind_some, if_neg hformat]

/-- A loop is detected when the inodes of the results repeat one another or an earlier one. -/
theorem checkAll_fst {dsym_inos : List Int32} (hnodup : dsym_inos.Nodup)
    (glob_results : List String) :
    (checkAll fs dsym_inos glob_results).1 = false ↔
      (glob_results.filterMap (inodeOf fs) ++ dsym_inos).Nodup := by
  induction glob_results generalizing dsym_inos with
  | nil => simp [checkAll, hnodup]
  | cons path glob_results ih =>
      rw [checkAll, checkForLoops_eq]
      cases hino : inodeOf fs path with
      | none =>
          rw [List.filterMap_cons_none hino, ← ih hnodup]
          rfl
      | some ino =>
          rw [List.filterMap_cons_some hino]
          by_cases hseen : ino ∈ dsym_inos
          · simp [hseen]
          · have hnext := ih (List.nodup_cons.2 ⟨hseen, hnodup⟩)
            simp only [if_neg hseen, Bool.false_or]
            rw [hnext, List.perm_middle.nodup_iff, List.cons_append]

theorem checkAll_snd {dsym_inos : List Int32} {glob_results : List String}
    (h : (checkAll fs dsym_inos glob_results).1 = false) :
    (checkAll fs dsym_inos glob_results).2.Perm
      (glob_results.filterMap (inodeOf fs) ++ dsym_inos) := by
  induction glob_results generalizing dsym_inos with
  | nil => exact List.Perm.refl _
  | cons path glob_results ih =>
      rw [checkAll, checkForLoops_eq] at h ⊢
      cases hino : inodeOf fs path with
      | none =>
          rw [hino] at h
          rw [List.filterMap_cons_none hino]
          exact ih h
      | some ino =>
          rw [hino] at h
          rw [List.filterMap_cons_some hino]
          by_cases hseen : ino ∈ dsym_inos
          · simp [hseen] at h
          · simp only [if_neg hseen, Bool.false_or] at h ⊢
            exact (ih h).trans List.perm_middle

end Loops

/-! ### Listing level by level -/

/-- A pattern that ends in `**` is recursive. -/
theorem endsRecursive_append (before : String) : endsRecursive (before ++ "**") = true := by
  have hstars : "**".toList.reverse = ['*', '*'] := rfl
  have hrev : (before ++ "**").toList.reverse = ['*', '*'] ++ before.toList.reverse := by
    rw [String.toList_append, List.reverse_append]
    rfl
  have hfind : TextSearch.find ['*', '*'] (['*', '*'] ++ before.toList.reverse) = some 0 := by
    rw [TextSearch.find_eq_some_iff]
    exact ⟨Nat.zero_le _, List.prefix_append _ _, fun j hj => absurd hj (Nat.not_lt_zero j)⟩
  rw [endsRecursive, rfind, hrev, hstars, hfind]
  simp

theorem levelPattern_succ (dir : String) (k : ℕ) :
    levelPattern dir (k + 1) = levelPattern dir k ++ "/**" := by
  rw [levelPattern, levelPattern, List.replicate_succ', String.append_assoc]
  simp

theorem endsRecursive_levelPattern (dir : String) (k : ℕ) :
    endsRecursive (levelPattern dir (k + 1)) = true := by
  have hsplit : levelPattern dir (k + 1) = levelPattern dir k ++ "/" ++ "**" := by
    rw [levelPattern_succ, String.append_assoc]
    rfl
  rw [hsplit]
  exact endsRecursive_append _

theorem pathBelow_concat (dir : String) (parent : List String) (name : String) :
    pathBelow dir (parent ++ [name]) = pathBelow dir parent ++ "/" ++ name := by
  simp [pathBelow, String.append_assoc]

theorem endsWithSlash_pathBelow {components : List String} (dir : String) (hne : components ≠ [])
    (hnames : ∀ name ∈ components, name ≠ "" ∧ '/' ∉ name.toList) :
    endsWithSlash (pathBelow dir components) = false := by
  obtain ⟨hname, hslash⟩ := hnames _ (List.getLast_mem hne)
  rw [← List.dropLast_append_getLast hne, pathBelow_concat, endsWithSlash]
  generalize components.getLast hne = name at hname hslash
  have hchars : name.toList ≠ [] := fun h => hname (String.toList_eq_nil_iff.1 h)
  rw [String.toList_append, List.getLast?_append_of_ne_nil _ hchars, beq_eq_false_iff_ne]
  intro hlast
  exact hslash (List.mem_of_getLast? hlast)

section Trees

variable {fs : GlobSystem} {dir : String} {tree : Tree}

theorem inodeOf_path (h : Shows fs dir tree) {e : Entry} (he : e ∈ tree.entries) :
    inodeOf fs (e.path dir) = e.inode := by
  obtain ⟨components, kind⟩ := e
  cases kind with
  | directory st_ino =>
      obtain ⟨st_mode, hstat, hformat⟩ := h.platformLstat components st_ino he
      have hends : endsWithSlash (pathBelow dir components ++ "/") = true := by
        simp [endsWithSlash]
      have hdrop : String.ofList (pathBelow dir components ++ "/").toList.dropLast =
          pathBelow dir components := by
        simp
      have hne : pathBelow dir components ++ "/" ≠ "" := by
        simp
      rw [inodeOf, Entry.path, if_neg (by simp [hne, hends]), hdrop, hstat, Option.bind_some,
        if_neg hformat]
      rfl
  | other =>
      have hends := endsWithSlash_pathBelow dir (tree.components_ne_nil _ he) (tree.names _ he)
      simp [inodeOf, Entry.path, Entry.inode, hends]

theorem filterMap_inodeOf (h : Shows fs dir tree) (k : ℕ) :
    ((tree.level k).map (Entry.path dir)).filterMap (inodeOf fs) =
      (tree.level k).filterMap Entry.inode := by
  rw [List.filterMap_map]
  exact List.filterMap_congr fun e he => inodeOf_path h (List.mem_of_mem_filter he)

theorem Tree.fromLevel_perm (tree : Tree) (k : ℕ) :
    (tree.fromLevel k).Perm (tree.level k ++ tree.fromLevel (k + 1)) := by
  have hsplit := (List.filter_append_perm (fun e : Entry => decide (e.components.length = k))
    (tree.fromLevel k)).symm
  have hat : (tree.fromLevel k).filter (fun e => decide (e.components.length = k)) =
      tree.level k := by
    rw [fromLevel, List.filter_filter]
    exact List.filter_congr fun e _ => by rw [Bool.eq_iff_iff]; simp; omega
  have hbelow : (tree.fromLevel k).filter (fun e => !decide (e.components.length = k)) =
      tree.fromLevel (k + 1) := by
    rw [fromLevel, List.filter_filter]
    exact List.filter_congr fun e _ => by rw [Bool.eq_iff_iff]; simp; omega
  rwa [hat, hbelow] at hsplit

theorem Tree.inodesAbove_succ (tree : Tree) (k : ℕ) :
    (tree.inodesAbove (k + 1)).Perm
      ((tree.level k).filterMap Entry.inode ++ tree.inodesAbove k) := by
  have hsplit := (List.filter_append_perm (fun e : Entry => decide (e.components.length = k))
    (tree.entries.filter (·.components.length < k + 1))).symm
  have hat : (tree.entries.filter (·.components.length < k + 1)).filter
      (fun e => decide (e.components.length = k)) = tree.level k := by
    rw [level, List.filter_filter]
    exact List.filter_congr fun e _ => by rw [Bool.eq_iff_iff]; simp; omega
  have habove : (tree.entries.filter (·.components.length < k + 1)).filter
      (fun e => !decide (e.components.length = k)) =
        tree.entries.filter (·.components.length < k) := by
    rw [List.filter_filter]
    exact List.filter_congr fun e _ => by rw [Bool.eq_iff_iff]; simp; omega
  rw [hat, habove] at hsplit
  have hinodes := hsplit.filterMap Entry.inode
  rwa [List.filterMap_append] at hinodes

theorem Tree.inodesAbove_sublist (tree : Tree) {k m : ℕ} (h : k ≤ m) :
    (tree.inodesAbove k).Sublist (tree.inodesAbove m) := by
  have hfilter : tree.entries.filter (·.components.length < k) =
      (tree.entries.filter (·.components.length < m)).filter (·.components.length < k) := by
    rw [List.filter_filter]
    exact List.filter_congr fun e _ => by rw [Bool.eq_iff_iff]; simp; omega
  rw [inodesAbove, inodesAbove, hfilter]
  exact (List.filter_sublist).filterMap _

/-- Below a level without entries there are none. -/
theorem Tree.fromLevel_eq_nil {k : ℕ} (hk : 0 < k) (h : tree.level k = []) :
    tree.fromLevel k = [] := by
  have hdescend : ∀ n, ∀ e ∈ tree.entries, e.components.length = k + n → False := by
    intro n
    induction n with
    | zero =>
        intro e he hlength
        have hmem : e ∈ tree.level k := List.mem_filter.2 ⟨he, by simpa using hlength⟩
        rw [h] at hmem
        cases hmem
    | succ n ih =>
        intro e he hlength
        obtain ⟨d, hd, hparent, -⟩ := tree.parents e he (by omega)
        refine ih d hd ?_
        rw [hparent, List.length_dropLast, hlength]
        omega
  rw [Tree.fromLevel, List.filter_eq_nil_iff]
  intro e he hlevel
  have hle : k ≤ e.components.length := by simpa using hlevel
  exact hdescend (e.components.length - k) e he (by omega)

theorem Tree.fromLevel_eq_nil_iff {k : ℕ} :
    tree.fromLevel k = [] ↔ ∀ e ∈ tree.entries, e.components.length < k := by
  rw [fromLevel, List.filter_eq_nil_iff]
  exact forall₂_congr fun e _ => by simp

/-- Where there are no entries, nothing is missing and no inodes are compared. -/
theorem nil_perm_fromLevel_iff {k : ℕ} (hnone : tree.fromLevel k = []) :
    List.Perm [] ((tree.fromLevel k).map (Entry.path dir)) ↔
      ∀ e ∈ tree.entries, k < e.components.length →
        (tree.inodesAbove e.components.length).Nodup := by
  refine iff_of_true ?_ fun e he hlt => ?_
  · rw [hnone]
    exact List.Perm.nil
  · exact absurd (Tree.fromLevel_eq_nil_iff.1 hnone e he) (Nat.lt_asymm hlt)

/-- After a repeated inode the level is all that is listed, which is all there is when no entry
lies below it. -/
theorem level_perm_iff_of_repeated {results : List String} {k : ℕ}
    (hresults : results.Perm ((tree.level k).map (Entry.path dir)))
    (hrepeat : ¬ (tree.inodesAbove (k + 1)).Nodup) :
    results.Perm ((tree.level k).map (Entry.path dir) ++
        (tree.fromLevel (k + 1)).map (Entry.path dir)) ↔
      ∀ e ∈ tree.entries, k < e.components.length →
        (tree.inodesAbove e.components.length).Nodup := by
  constructor
  · intro hperm e he hlt
    have hlength := (hresults.symm.trans hperm).length_eq
    have hnone : tree.fromLevel (k + 1) = [] := by
      simpa using hlength
    exact absurd (Tree.fromLevel_eq_nil_iff.1 hnone e he) (Nat.not_lt.2 hlt)
  · intro hdiffer
    have hnone : tree.fromLevel (k + 1) = [] := by
      rw [Tree.fromLevel_eq_nil_iff]
      intro e he
      by_contra hle
      have hbelow : k + 1 ≤ e.components.length := Nat.le_of_not_lt hle
      exact hrepeat ((hdiffer e he hbelow).sublist (tree.inodesAbove_sublist hbelow))
    rw [hnone, List.map_nil, List.append_nil]
    exact hresults

/-- With rounds enough for the depth, what is listed from a level on is all there is exactly when
the inodes above each entry differ. -/
theorem globLevels_perm_iff (h : Shows fs dir tree) {rounds k : ℕ} {dsym_inos : List Int32}
    (hrounds : ∀ e ∈ tree.entries, e.components.length < k + 1 + rounds)
    (hseen : dsym_inos.Perm (tree.inodesAbove (k + 1))) (hnodup : dsym_inos.Nodup) :
    (globLevels fs rounds (levelPattern dir (k + 1)) dsym_inos).Perm
        ((tree.fromLevel (k + 1)).map (Entry.path dir)) ↔
      ∀ e ∈ tree.entries, k + 1 < e.components.length →
        (tree.inodesAbove e.components.length).Nodup := by
  induction rounds generalizing k dsym_inos with
  | zero => exact nil_perm_fromLevel_iff (Tree.fromLevel_eq_nil_iff.2 hrounds)
  | succ rounds ih =>
      have hresults := h.platformGlob k
      have hinodes : ((fs.platformGlob (levelPattern dir (k + 1))).filterMap (inodeOf fs) ++
          dsym_inos).Perm (tree.inodesAbove (k + 2)) := by
        refine List.Perm.trans ?_ (tree.inodesAbove_succ (k + 1)).symm
        rw [← filterMap_inodeOf h]
        exact (hresults.filterMap _).append hseen
      have hlooped := checkAll_fst fs hnodup (fs.platformGlob (levelPattern dir (k + 1)))
      rw [hinodes.nodup_iff] at hlooped
      have hsplit := (tree.fromLevel_perm (k + 1)).map (Entry.path dir)
      rw [List.map_append] at hsplit
      rw [globLevels]
      by_cases hempty : fs.platformGlob (levelPattern dir (k + 1)) = []
      · rw [hempty, List.nil_perm, List.map_eq_nil_iff] at hresults
        rw [if_pos (.inl hempty), hempty]
        exact nil_perm_fromLevel_iff (Tree.fromLevel_eq_nil (Nat.succ_pos k) hresults)
      · rw [if_neg (by simp [hempty, endsRecursive_levelPattern]), hsplit.congr_right]
        cases hchecked : (checkAll fs dsym_inos (fs.platformGlob (levelPattern dir (k + 1)))).1 with
        | true =>
            have hrepeat : ¬ (tree.inodesAbove (k + 2)).Nodup := by
              rw [← hlooped, hchecked]
              simp
            exact level_perm_iff_of_repeated hresults hrepeat
        | false =>
            have hdiffer := hlooped.1 hchecked
            have hnext := (checkAll_snd fs hchecked).trans hinodes
            have hdepth : ∀ e ∈ tree.entries, e.components.length < k + 1 + 1 + rounds := by
              intro e he
              have hlt := hrounds e he
              omega
            have hrest := ih hdepth hnext (hnext.nodup_iff.2 hdiffer)
            rw [if_neg (by simp), (hresults.append_right _).congr_left, List.perm_append_left_iff,
              ← levelPattern_succ, hrest]
            constructor
            · intro hbelow e he hlt
              rcases Nat.lt_or_eq_of_le hlt with hlt | heq
              · exact hbelow e he hlt
              · rw [← heq]
                exact hdiffer
            · intro hbelow e he hlt
              exact hbelow e he (by omega)

/-! ### The paths of entries -/

theorem pathBelow_eq_join {components : List String} (dir : String) (hne : components ≠ []) :
    pathBelow dir components = dir ++ "/" ++ join components "/" := by
  induction components using List.reverseRecOn with
  | nil => exact absurd rfl hne
  | append_singleton parent name ih =>
      by_cases hparent : parent = []
      · subst hparent
        simp [pathBelow, join, String.append_assoc]
      · rw [pathBelow_concat, ih hparent, join_concat hparent]
        simp only [String.append_assoc]

/-- The names of an entry, with an empty one behind those of a directory. -/
def Entry.parts (e : Entry) : List String :=
  match e.kind with
  | .directory _ => e.components ++ [""]
  | .other => e.components

theorem Entry.path_eq_join {e : Entry} (dir : String) (hne : e.components ≠ []) :
    e.path dir = dir ++ "/" ++ join e.parts "/" := by
  rw [path, parts, pathBelow_eq_join dir hne]
  cases e.kind with
  | directory st_ino =>
      simp only [join_concat hne, String.append_assoc, String.append_empty]
  | other => rfl

theorem Entry.filter_parts {e : Entry} (h : ∀ name ∈ e.components, name ≠ "" ∧ '/' ∉ name.toList) :
    e.parts.filter (· ≠ "") = e.components := by
  have hkept : e.components.filter (· ≠ "") = e.components :=
    List.filter_eq_self.2 fun name hname => by simpa using (h name hname).1
  rw [parts]
  cases e.kind with
  | directory st_ino =>
      rw [List.filter_append, hkept]
      simp
  | other => exact hkept

theorem Entry.splitAnyOf_join_parts {e : Entry} (hne : e.components ≠ [])
    (h : ∀ name ∈ e.components, name ≠ "" ∧ '/' ∉ name.toList) :
    splitAnyOf (join e.parts "/") "/" = e.parts := by
  apply splitAnyOf_join rfl
  · rw [parts]
    cases e.kind with
    | directory st_ino => simp
    | other => exact hne
  · intro part hpart
    rw [parts] at hpart
    have hpart' : part ∈ e.components ∨ part = "" := by
      cases hkind : e.kind with
      | directory st_ino =>
          rw [hkind] at hpart
          simpa using hpart
      | other =>
          rw [hkind] at hpart
          exact .inl hpart
    rcases hpart' with hname | rfl
    · exact (h part hname).2
    · simp

theorem Tree.nodup_paths (tree : Tree) (dir : String) :
    (tree.entries.map (Entry.path dir)).Nodup := by
  refine List.Nodup.map_on ?_ tree.nodup.of_map
  intro e he e' he' hpath
  have hne := tree.components_ne_nil e he
  have hne' := tree.components_ne_nil e' he'
  rw [Entry.path_eq_join dir hne, Entry.path_eq_join dir hne', String.append_right_inj] at hpath
  have hparts : e.parts = e'.parts := by
    rw [← Entry.splitAnyOf_join_parts hne (tree.names e he), hpath,
      Entry.splitAnyOf_join_parts hne' (tree.names e' he')]
  have hcomponents : e.components = e'.components := by
    rw [← Entry.filter_parts (tree.names e he), hparts, Entry.filter_parts (tree.names e' he')]
  exact List.inj_on_of_nodup_map tree.nodup he he' hcomponents

theorem Tree.eq_of_pathBelow_eq (tree : Tree) {dir : String} {e e' : Entry} (he : e ∈ tree.entries)
    (he' : e' ∈ tree.entries) (h : pathBelow dir e.components = pathBelow dir e'.components) :
    e = e' := by
  have hne := tree.components_ne_nil e he
  have hne' := tree.components_ne_nil e' he'
  have hsplit : splitAnyOf (join e.components "/") "/" = e.components :=
    splitAnyOf_join rfl hne fun name hname => (tree.names e he name hname).2
  rw [pathBelow_eq_join dir hne, pathBelow_eq_join dir hne', String.append_right_inj] at h
  rw [h, splitAnyOf_join rfl hne' fun name hname => (tree.names e' he' name hname).2] at hsplit
  exact List.inj_on_of_nodup_map tree.nodup he he' hsplit.symm

/-! ### The pattern -/

theorem isRelative_eq_false {pattern : String} (h : pattern.toList.head? = some '/') :
    isRelative pattern = false := by
  obtain ⟨rest, hrest⟩ := List.head?_eq_some_iff.1 h
  have hslash : isByte pattern 0 '/' = true := by
    rw [isByte, byteAt, hrest]
    rfl
  have hne : pattern ≠ "" := by
    rintro rfl
    cases h
  simp [isRelative, hslash, hne]

theorem replaceGlobWildcards_eq (h : Shows fs dir tree) :
    replaceGlobWildcards fs.toFileSystem (dir ++ "/%%") = levelPattern dir 1 := by
  have hstars : String.ofList ((dir ++ "/%%").toList.map fun c => if c = '%' then '*' else c) =
      dir ++ "/" ++ "**" := by
    have hdir : dir.toList.map (fun c => if c = '%' then '*' else c) = dir.toList := by
      conv_rhs => rw [← List.map_id dir.toList]
      exact List.map_congr_left fun c hc => if_neg (h.literal c hc).1
    apply String.ext
    rw [String.toList_ofList, String.toList_append, List.map_append, hdir, String.append_assoc,
      String.toList_append]
    rfl
  have hhead : (dir ++ "/" ++ "**").toList.head? = some '/' := by
    rcases h.absolute with rfl | hhead
    · rfl
    · rw [String.toList_append, String.toList_append, List.head?_append, List.head?_append, hhead]
      rfl
  have hbase : (dir ++ "/" ++ "**").toList.takeWhile (· ≠ '*') = (dir ++ "/").toList := by
    have hdir : ∀ c ∈ dir.toList ++ ['/'], decide (c ≠ '*') = true := by
      intro c hc
      rw [List.mem_append, List.mem_singleton] at hc
      rcases hc with hc | rfl
      · simpa using (h.literal c hc).2
      · rfl
    have hchars : (dir ++ "/" ++ "**").toList = dir.toList ++ ['/'] ++ ['*', '*'] := by
      simp
    have htail : ['*', '*'].takeWhile (fun c => decide (c ≠ '*')) = [] := by
      simp
    rw [hchars, List.takeWhile_append_of_pos hdir, htail, List.append_nil, String.toList_append]
    rfl
  have hpattern : levelPattern dir 1 = dir ++ "/" ++ "**" := by
    rw [levelPattern, String.append_assoc]
    rfl
  rw [replaceGlobWildcards, hstars, isRelative_eq_false hhead, hpattern]
  simp only [Bool.false_eq_true, if_false, hbase, String.ofList_toList, h.canonical]
  by_cases hroot : dir = ""
  · subst hroot
    rfl
  · have hslash : dir ≠ dir ++ "/" := by
      intro heq
      have hlength := congrArg (fun s => s.toList.length) heq
      simp at hlength
    have hdrop : String.ofList ((dir ++ "/" ++ "**").toList.drop (dir ++ "/").toList.length) =
        "**" := by
      rw [@String.toList_append (dir ++ "/"), List.drop_left]
      rfl
    rw [if_pos ⟨by simp, by simp [hroot], by simpa [hroot] using hslash⟩, if_neg hroot,
      h.isDirectory hroot, if_pos rfl, hdrop]

/-- Every entry below the directory is listed once. -/
def ListsTree (fs : GlobSystem) (dir : String) (tree : Tree) : Prop :=
  (resolveFilePattern fs (dir ++ "/%%") []).Nodup ∧
    ∀ path, path ∈ resolveFilePattern fs (dir ++ "/%%") [] ↔
      ∃ e ∈ tree.entries, e.path dir = path

theorem resolveFilePattern_eq (h : Shows fs dir tree) :
    resolveFilePattern fs (dir ++ "/%%") [] = globLevels fs 63 (levelPattern dir 1) [] := by
  have hkeeps : GLOB_ALL.keeps = fun _ => true := by
    funext found
    simp [GlobLimits.keeps, GLOB_ALL]
  have hpattern := replaceGlobWildcards_eq h
  rw [resolveFilePattern, genGlobs, hkeeps, List.filter_true, List.nil_append]
  exact congrArg (globLevels fs 63 · []) hpattern

/-- A tree is listed exactly when the directories above each entry differ in the low 32 bits of
their inodes. -/
theorem listsTree_iff (h : Shows fs dir tree)
    (hdepth : ∀ e ∈ tree.entries, e.components.length < kMaxRecursiveGlobs) :
    ListsTree fs dir tree ↔
      ∀ e ∈ tree.entries, (tree.inodesAbove e.components.length).Nodup := by
  have hfrom : tree.fromLevel 1 = tree.entries := by
    rw [Tree.fromLevel, List.filter_eq_self]
    intro e he
    simpa [Nat.one_le_iff_ne_zero] using tree.components_ne_nil e he
  have hnone : tree.inodesAbove 1 = [] := by
    have hfilter : tree.entries.filter (·.components.length < 1) = [] := by
      rw [List.filter_eq_nil_iff]
      intro e he
      simpa using tree.components_ne_nil e he
    rw [Tree.inodesAbove, hfilter, List.filterMap_nil]
  have hbelow : ∀ e ∈ tree.entries, e.components.length < 0 + 1 + 63 := by
    simpa [kMaxRecursiveGlobs] using hdepth
  have hseen : ([] : List Int32).Perm (tree.inodesAbove (0 + 1)) := by
    rw [hnone]
  have hlisted := globLevels_perm_iff h hbelow hseen List.nodup_nil
  have hperm : ListsTree fs dir tree ↔
      (globLevels fs 63 (levelPattern dir 1) []).Perm (tree.entries.map (Entry.path dir)) := by
    rw [ListsTree, resolveFilePattern_eq h]
    constructor
    · rintro ⟨hnodup, hmem⟩
      rw [List.perm_ext_iff_of_nodup hnodup (tree.nodup_paths dir)]
      intro path
      rw [hmem, List.mem_map]
    · intro hperm
      refine ⟨hperm.nodup_iff.2 (tree.nodup_paths dir), fun path => ?_⟩
      rw [hperm.mem_iff, List.mem_map]
  rw [hperm, ← hfrom, hlisted, hfrom]
  constructor
  · intro hdiffer e he
    rcases Nat.lt_or_ge 1 e.components.length with hlt | hle
    · exact hdiffer e he hlt
    · exact List.nodup_nil.sublist (hnone ▸ tree.inodesAbove_sublist hle)
  · intro hdiffer e he _
    exact hdiffer e he

end Trees

/-! ### File systems of trees -/

/-- A file system with a tree below a directory. -/
def ofTree (dir : String) (tree : Tree) : GlobSystem where
  absolute := id
  canonical path := if path = dir ++ "/" then (if dir = "" then "/" else dir) else ""
  isDirectory path := path == dir
  platformGlob path :=
    (tree.entries.filter fun e => levelPattern dir e.components.length = path).map (Entry.path dir)
  platformLstat path :=
    tree.entries.findSome? fun e =>
      match e.kind with
      | .directory st_ino =>
          if pathBelow dir e.components = path then some ⟨0o040000, st_ino⟩ else none
      | .other => none

theorem length_levelPattern (dir : String) (k : ℕ) :
    (levelPattern dir k).toList.length = dir.toList.length + 3 * k := by
  induction k with
  | zero => simp [levelPattern]
  | succ k ih =>
      rw [levelPattern_succ, String.toList_append, List.length_append, ih]
      have hstars : "/**".toList.length = 3 := rfl
      omega

theorem shows_ofTree {dir : String} (tree : Tree)
    (habsolute : dir = "" ∨ dir.toList.head? = some '/')
    (hliteral : ∀ c ∈ dir.toList, c ≠ '%' ∧ c ≠ '*') : Shows (ofTree dir tree) dir tree where
  absolute := habsolute
  literal := hliteral
  canonical := if_pos rfl
  isDirectory _ := beq_self_eq_true dir
  platformGlob k := by
    have hlevel : tree.entries.filter (fun e => levelPattern dir e.components.length =
        levelPattern dir (k + 1)) = tree.level (k + 1) := by
      refine List.filter_congr fun e _ => decide_eq_decide.2 ⟨fun heq => ?_, fun heq => by rw [heq]⟩
      have hlength := congrArg (fun s => s.toList.length) heq
      simp only [length_levelPattern] at hlength
      omega
    rw [← hlevel]
    exact List.Perm.refl _
  platformLstat components st_ino hmem := by
    refine ⟨0o040000, ?_, by decide⟩
    cases hfind : (ofTree dir tree).platformLstat (pathBelow dir components) with
    | none =>
        have hentry := List.findSome?_eq_none_iff.1 hfind _ hmem
        simp at hentry
    | some d_stat =>
        obtain ⟨⟨components', kind⟩, hmem', hstat⟩ := List.exists_of_findSome?_eq_some hfind
        cases kind with
        | directory st_ino' =>
            obtain ⟨hpath, rfl⟩ : pathBelow dir components' = pathBelow dir components ∧
                (⟨0o040000, st_ino'⟩ : Stat) = d_stat := by
              simpa using hstat
            have hentry := tree.eq_of_pathBelow_eq hmem' hmem hpath
            cases hentry
            rfl
        | other => cases hstat

def twoMounts (first second : UInt64) : Tree where
  entries := [⟨["a"], .directory first⟩, ⟨["b"], .directory second⟩, ⟨["a", "x"], .other⟩]
  nodup := by simp
  components_ne_nil := by simp
  names := by simp
  parents := by simp [Entry.inode]

theorem listsTree_of_distinct : ListsTree (ofTree "/d" (twoMounts 2 3)) "/d" (twoMounts 2 3) :=
  (listsTree_iff (shows_ofTree _ (by decide) (by simp)) (by decide)).2 (by decide)

/-- Two file systems are mounted below a directory, and the root of each has the inode 2: a file in
one of them is not listed. -/
theorem mounts_hide_file :
    Shows (ofTree "/d" (twoMounts 2 2)) "/d" (twoMounts 2 2) ∧
      (∀ e ∈ (twoMounts 2 2).entries, e.components.length < kMaxRecursiveGlobs) ∧
      ¬ ListsTree (ofTree "/d" (twoMounts 2 2)) "/d" (twoMounts 2 2) := by
  refine ⟨shows_ofTree _ (by decide) (by simp), by decide, ?_⟩
  intro h
  have hlisted := (h.2 "/d/a/x").2 ⟨⟨["a", "x"], .other⟩, by decide, by decide⟩
  revert hlisted
  decide +kernel

end Osquery.Filesystem.Globs
