import Osquery.EventPublishers.PathSet

/-!
# Reads of the path comparator

The comparator of a path set reads its lists by index. After the loop it reads the component
before the index at which the loop ended, in a list that ended there. A list without components
has no component before index zero. The search for a path is right exactly when no such list is
compared and no list that matches the path is cut off from it by a list inserted before.

## Implementation notes

An index read outside a list has no result. The index is an `unsigned` of 32 bits, so that its
predecessor at zero is the largest one; the lists are taken to be short enough for the loop not
to wrap around. The number of rounds left in the loop stands beside the index.
-/

namespace Osquery.EventPublishers

namespace PatternedPath

/-- `ndx - 1`. -/
def before (ndx : ℕ) : ℕ := if ndx = 0 then 2 ^ 32 - 1 else ndx - 1

/-- The test for a wildcard at the end of a list, which reads the list only if it ended there. -/
def endsWithStar (path : Path) (ndx : ℕ) : Option Bool :=
  if ndx = path.length then path[before ndx]?.map fun component => component = "*" else some false

/-- What follows the loop. -/
def afterLoop (lhs rhs : Path) (ndx : ℕ) : Option Bool := do
  if ← endsWithStar rhs ndx then return false
  if ← endsWithStar lhs ndx then return false
  return lhs.length < rhs.length

/-- The loop with some rounds left, and what follows it. -/
def compareLoop (lhs rhs : Path) : ℕ → ℕ → Option Bool
  | 0, ndx => afterLoop lhs rhs ndx
  | rounds + 1, ndx => do
      let l ← lhs[ndx]?
      if l = "**" then return false
      let r ← rhs[ndx]?
      if r = "**" then return false
      if l = "*" ∨ r = "*" then compareLoop lhs rhs rounds (ndx + 1)
      else if r < l then return false
      else if l < r then return true
      else compareLoop lhs rhs rounds (ndx + 1)

/-- `Compare`; it has no result if it reads outside a list. -/
def compareReads (lhs rhs : Path) : Option Bool :=
  compareLoop lhs rhs (if lhs.length < rhs.length then lhs.length else rhs.length) 0

/-! ### What is read -/

theorem endsWithStar_of_ne {path : Path} {ndx : ℕ} (h : ndx ≠ path.length) :
    endsWithStar path ndx = some false := if_neg h

/-- The last component is read if there is one. -/
theorem endsWithStar_length {path : Path} {last : String}
    (h : path[path.length - 1]? = some last) :
    endsWithStar path path.length = some (decide (last = "*")) := by
  have hne : path.length ≠ 0 := by
    have := (List.getElem?_eq_some_iff.mp h).1
    omega
  rw [endsWithStar, if_pos rfl, before, if_neg hne, h, Option.map_some]

/-- An empty list is read before its first component. -/
theorem compareReads_of_nil {lhs rhs : Path} (h : lhs = [] ∨ rhs = []) :
    compareReads lhs rhs = none := by
  rcases h with rfl | rfl
  · cases rhs with
    | nil => rfl
    | cons r rhs => rfl
  · cases lhs with
    | nil => rfl
    | cons l lhs => rfl

theorem afterLoop_eq {lhs rhs : Path} {ndx : ℕ} {l r : String} (hl : lhs[ndx - 1]? = some l)
    (hr : rhs[ndx - 1]? = some r) (hend : min lhs.length rhs.length = ndx) :
    afterLoop lhs rhs ndx = some (compareFrom l (lhs.drop ndx) (rhs.drop ndx)) := by
  obtain hlt | heq | hgt := lt_trichotomy lhs.length rhs.length
  · have hndx : ndx = lhs.length := by omega
    subst hndx
    have hrest : rhs.drop lhs.length ≠ [] := by simpa using hlt
    obtain ⟨d, rest, hd⟩ := List.exists_cons_of_ne_nil hrest
    rw [afterLoop, endsWithStar_of_ne (Nat.ne_of_lt hlt), endsWithStar_length hl, List.drop_length,
      hd, compareFrom]
    by_cases hstar : l = "*" <;> simp [hstar, hlt]
  · have hndx : ndx = lhs.length := by omega
    subst hndx
    have hrhs : endsWithStar rhs lhs.length = some (decide (r = "*")) := by
      rw [heq] at hr ⊢
      exact endsWithStar_length hr
    rw [afterLoop, hrhs, endsWithStar_length hl, List.drop_length, heq, List.drop_length,
      compareFrom]
    by_cases hstar : r = "*" <;> by_cases hstar' : l = "*" <;> simp [hstar, hstar']
  · have hndx : ndx = rhs.length := by omega
    subst hndx
    have hrest : lhs.drop rhs.length ≠ [] := by simpa using hgt
    obtain ⟨d, rest, hd⟩ := List.exists_cons_of_ne_nil hrest
    rw [afterLoop, endsWithStar_of_ne (Nat.ne_of_lt hgt), endsWithStar_length hr, List.drop_length,
      hd, compareFrom]
    by_cases hstar : r = "*" <;> simp [hstar, Nat.le_of_lt hgt]

/-- One round takes a component off each list. -/
theorem compareLoop_step {lhs rhs : Path} {rounds ndx : ℕ} {l r : String}
    (hl : lhs[ndx]? = some l) (hr : rhs[ndx]? = some r)
    (hrest : compareLoop lhs rhs rounds (ndx + 1) =
      some (compareFrom l (lhs.drop (ndx + 1)) (rhs.drop (ndx + 1)))) (last : String) :
    compareLoop lhs rhs (rounds + 1) ndx =
      some (compareFrom last (lhs.drop ndx) (rhs.drop ndx)) := by
  obtain ⟨hlin, rfl⟩ := List.getElem?_eq_some_iff.mp hl
  obtain ⟨hrin, rfl⟩ := List.getElem?_eq_some_iff.mp hr
  rw [List.drop_eq_getElem_cons hlin, List.drop_eq_getElem_cons hrin, compareFrom, compareLoop, hl,
    Option.bind_eq_bind, Option.bind_some]
  by_cases hdouble : lhs[ndx] = "**"
  · simp [hdouble]
  · rw [if_neg hdouble, hr]
    by_cases hdouble' : rhs[ndx] = "**"
    · simp [hdouble']
    · simp only [hdouble, hdouble', hrest, or_self, if_false, Option.bind_some]
      split
      · rfl
      · split
        · rfl
        · split
          · rfl
          · rfl

theorem compareLoop_eq {lhs rhs : Path} {rounds : ℕ} : ∀ {ndx : ℕ} {l r : String},
    lhs[ndx - 1]? = some l → rhs[ndx - 1]? = some r → 0 < ndx →
    ndx + rounds = min lhs.length rhs.length →
    compareLoop lhs rhs rounds ndx = some (compareFrom l (lhs.drop ndx) (rhs.drop ndx)) := by
  induction rounds with
  | zero =>
      intro ndx l r hl hr hpos hend
      exact afterLoop_eq hl hr hend.symm
  | succ rounds ih =>
      intro ndx l r hl hr hpos hend
      have hlin : ndx < lhs.length := by omega
      have hrin : ndx < rhs.length := by omega
      have hl' := List.getElem?_eq_getElem hlin
      have hr' := List.getElem?_eq_getElem hrin
      exact compareLoop_step hl' hr' (ih hl' hr' (Nat.succ_pos ndx) (by omega)) l

/-- Between lists with components all reads are inside, and the result is the comparator's. -/
theorem compareReads_of_ne_nil {lhs rhs : Path} (hl : lhs ≠ []) (hr : rhs ≠ []) :
    compareReads lhs rhs = some (compare lhs rhs) := by
  obtain ⟨l, lhs, rfl⟩ := List.exists_cons_of_ne_nil hl
  obtain ⟨r, rhs, rfl⟩ := List.exists_cons_of_ne_nil hr
  have hmin : (if (l :: lhs).length < (r :: rhs).length then (l :: lhs).length
      else (r :: rhs).length) = min lhs.length rhs.length + 1 := by
    rw [List.length_cons, List.length_cons]
    split <;> omega
  rw [compareReads, hmin]
  refine compareLoop_step rfl rfl (compareLoop_eq rfl rfl Nat.one_pos ?_) ""
  rw [List.length_cons, List.length_cons]
  omega

/-- The comparator stays inside its lists exactly when both have components. -/
theorem compareReads_isSome (lhs rhs : Path) :
    (compareReads lhs rhs).isSome = true ↔ lhs ≠ [] ∧ rhs ≠ [] := by
  by_cases h : lhs = [] ∨ rhs = []
  · rw [compareReads_of_nil h]
    exact iff_of_false (by simp) (by tauto)
  · rw [not_or] at h
    rw [compareReads_of_ne_nil h.1 h.2]
    exact iff_of_true rfl h

/-! ### Lists without components -/

/-- Only the root has a component of its own. -/
theorem root_eq_nil_iff (str : String) :
    (if str = "/" then [""] else []) = [] ↔ str ≠ "/" := by
  by_cases hroot : str = "/"
  · rw [if_pos hroot]
    exact iff_of_false (List.cons_ne_nil _ _) (not_not.mpr hroot)
  · rw [if_neg hroot]
    exact iff_of_true rfl hroot

theorem createPath_eq_nil_iff (str : String) :
    createPath str = [] ↔ str ≠ "/" ∧ tokens str = [] := by
  rw [createPath, List.append_eq_nil_iff, root_eq_nil_iff]

/-- The list before a double wildcard is empty if nothing comes before. -/
theorem nil_mem_splitVPath (path : Path) (components : List String) :
    [] ∈ splitVPath path components ↔
      path = [] ∧ (components = [] ∨ components.head? = some "**") := by
  induction components generalizing path with
  | nil =>
      rw [splitVPath, List.mem_singleton, eq_comm]
      exact (and_iff_left (Or.inl rfl)).symm
  | cons component components ih =>
      rw [splitVPath]
      by_cases hdouble : component = "**"
      · rw [if_pos hdouble, List.mem_pair, or_iff_left (List.append_ne_nil_of_right_ne_nil _
          (List.cons_ne_nil _ _)).symm, eq_comm, hdouble]
        exact (and_iff_left (Or.inr rfl)).symm
      · rw [if_neg hdouble, ih]
        simp [hdouble]

theorem nil_mem_createVPath (str : String) :
    [] ∈ createVPath str ↔
      str ≠ "/" ∧ (tokens str = [] ∨ (tokens str).head? = some "**") := by
  rw [createVPath, nil_mem_splitVPath, root_eq_nil_iff]

theorem splitOnP_eq_nil_iff (p : Char → Bool) (cs : List Char) :
    (∀ piece ∈ cs.splitOnP p, piece = []) ↔ ∀ c ∈ cs, p c = true := by
  induction cs with
  | nil => simp
  | cons c cs ih =>
      rw [List.splitOnP_cons_eq_if_modifyHead, List.forall_mem_cons, ← ih]
      by_cases hc : p c = true
      · simp [hc]
      · rw [if_neg hc]
        obtain ⟨piece, rest, hsplit⟩ := List.exists_cons_of_ne_nil (List.splitOnP_ne_nil p cs)
        simp [hsplit, hc]

/-- A text has no tokens if it is slashes only. -/
theorem tokens_eq_nil_iff (str : String) : tokens str = [] ↔ ∀ c ∈ str.toList, c = '/' := by
  have h := splitOnP_eq_nil_iff (· == '/') str.toList
  simp only [beq_iff_eq] at h
  rw [← h, tokens, List.map_eq_nil_iff, List.filter_eq_nil_iff]
  simp

end PatternedPath

namespace PathSet

open PatternedPath Foundation

/-- The root, or a text that is more than slashes. -/
def NamesComponent (str : String) : Prop := str = "/" ∨ ∃ c ∈ str.toList, c ≠ '/'

/-- A text whose first component is the double wildcard. -/
def OpensWithDoubleWildcard (str : String) : Prop := (tokens str).head? = some "**"

/-- The lists that are made of some patterns and of some paths. -/
def produced (fs : FileSystem) (patterns paths : List String) : List Path :=
  derived fs patterns ++ paths.map createPath

/-- Comparisons of lists that patterns and paths are made into stay inside the lists. -/
def StaysInside (fs : FileSystem) (patterns paths : List String) : Prop :=
  ∀ lhs ∈ produced fs patterns paths, ∀ rhs ∈ produced fs patterns paths,
    (compareReads lhs rhs).isSome = true

theorem staysInside_iff_nil_not_mem (fs : FileSystem) (patterns paths : List String) :
    StaysInside fs patterns paths ↔ [] ∉ produced fs patterns paths := by
  constructor
  · intro h hmem
    exact ((compareReads_isSome [] []).mp (h [] hmem [] hmem)).1 rfl
  · intro h lhs hl rhs hr
    exact (compareReads_isSome lhs rhs).mpr ⟨ne_of_mem_of_not_mem hl h, ne_of_mem_of_not_mem hr h⟩

theorem namesComponent_iff (str : String) :
    NamesComponent str ↔ ¬(str ≠ "/" ∧ tokens str = []) := by
  rw [NamesComponent, tokens_eq_nil_iff, not_and_or, not_not]
  simp

/-- The comparator reads inside its lists exactly when every pattern and every path names a
component and no pattern opens with the double wildcard. -/
theorem staysInside_iff (fs : FileSystem) (patterns paths : List String) :
    StaysInside fs patterns paths ↔
      (∀ pattern ∈ patterns, NamesComponent (replaceGlobWildcards fs pattern) ∧
        ¬OpensWithDoubleWildcard (replaceGlobWildcards fs pattern)) ∧
      ∀ path ∈ paths, NamesComponent path := by
  have hpattern (str : String) : [] ∉ createVPath str ↔
      NamesComponent str ∧ ¬OpensWithDoubleWildcard str := by
    rw [nil_mem_createVPath, namesComponent_iff, OpensWithDoubleWildcard]
    by_cases hroot : str = "/"
    · subst hroot
      exact iff_of_true (by simp) ⟨by simp, by decide⟩
    · simp [hroot]
  have hpath (str : String) : createPath str ≠ [] ↔ NamesComponent str := by
    rw [namesComponent_iff, ne_eq, createPath_eq_nil_iff]
  rw [staysInside_iff_nil_not_mem, produced, List.mem_append, not_or]
  apply and_congr
  · simp only [derived, List.mem_flatMap, not_exists, not_and, hpattern]
  · simp only [List.mem_map, not_exists, not_and]
    exact forall₂_congr fun path _ => hpath path

/-! ### Searches -/

/-- The patterns are inserted into an empty set, in which a path is searched. -/
def findInserted (fs : FileSystem) (patterns : List String) (str : String) : Option Bool :=
  (SearchTree.Tree.insertAllM compareReads (derived fs patterns)).bind fun paths =>
    SearchTree.Tree.findM compareReads (createPath str) paths

theorem compares_ne_nil : SearchTree.Compares compare compareReads (· ≠ []) where
  eq_some _ _ hl hr := compareReads_of_ne_nil hl hr
  eq_none lhs rhs hnot := by
    have hnone := mt (compareReads_isSome lhs rhs).mp hnot
    rwa [Bool.not_eq_true, Option.isSome_eq_false_iff, Option.isNone_iff_eq_none] at hnone

theorem splitVPath_ne_nil (path : Path) (components : List String) :
    splitVPath path components ≠ [] := by
  induction components generalizing path with
  | nil => exact List.cons_ne_nil _ _
  | cons component components ih =>
      rw [splitVPath]
      split
      · exact List.cons_ne_nil _ _
      · exact ih _

theorem derived_eq_nil_iff (fs : FileSystem) (patterns : List String) :
    derived fs patterns = [] ↔ patterns = [] := by
  cases patterns with
  | nil => exact iff_of_true rfl rfl
  | cons pattern patterns =>
      refine iff_of_false (fun hnil => ?_) (List.cons_ne_nil _ _)
      rw [derived, List.flatMap_cons, List.append_eq_nil_iff] at hnil
      exact splitVPath_ne_nil _ _ hnil.1

/-- A search after insertions is right exactly when it compares nothing or stays inside the lists
that it compares, and reaches a matching list if there is one. -/
theorem find_iff_matches_iff (fs : FileSystem) (patterns : List String) (str : String) :
    (∃ found, findInserted fs patterns str = some found ∧
        (found = true ↔ ∃ p ∈ derived fs patterns, Matches p str)) ↔
      (patterns = [] ∨ StaysInside fs patterns [str]) ∧
        ((∃ p ∈ derived fs patterns, Matches p str) →
          SearchTree.Reached compare (createPath str) (derived fs patterns)) := by
  have hinside : (derived fs patterns = [] ∨
      createPath str ≠ [] ∧ ∀ path ∈ derived fs patterns, path ≠ []) ↔
        (patterns = [] ∨ StaysInside fs patterns [str]) := by
    rw [derived_eq_nil_iff, staysInside_iff_nil_not_mem, produced, List.map_singleton,
      List.mem_append, List.mem_singleton, not_or, and_comm, eq_comm (a := [])]
    refine or_congr_right (and_congr_left fun _ => ?_)
    exact ⟨fun h hmem => h [] hmem rfl, fun h path hpath => ne_of_mem_of_not_mem hpath h⟩
  rw [← hinside, findInserted]
  rcases compares_ne_nil.search_eq (createPath str) (derived fs patterns) with
    ⟨hok, heq⟩ | ⟨hnot, heq⟩
  · rw [and_iff_right hok, ← SearchTree.find_right_iff, heq]
    exact ⟨fun ⟨_, hfound, h⟩ => Option.some.inj hfound ▸ h, fun h => ⟨_, rfl, h⟩⟩
  · rw [heq]
    exact iff_of_false (fun ⟨_, hfound, _⟩ => nomatch hfound) fun h => hnot h.1

/-- A path is found in one order of insertion and not in the other. -/
theorem order_dependent :
    findInserted noFiles ["/a/b/c", "/a/%%"] "/a/b" = some false ∧
      findInserted noFiles ["/a/%%", "/a/b/c"] "/a/b" = some true ∧
      ¬∃ found, findInserted noFiles ["/a/b/c", "/a/%%"] "/a/b" = some found ∧
        (found = true ↔ ∃ p ∈ derived noFiles ["/a/b/c", "/a/%%"], Matches p "/a/b") := by
  have hmissed : findInserted noFiles ["/a/b/c", "/a/%%"] "/a/b" = some false := by decide
  refine ⟨hmissed, by decide, ?_⟩
  rintro ⟨found, hfound, hiff⟩
  rw [hmissed] at hfound
  obtain rfl := Option.some.inj hfound
  exact Bool.false_ne_true (hiff.mpr ⟨["a", "**"], by decide, by decide, by decide⟩)

/-- The two lists of a pattern that is a double wildcard are compared outside. -/
theorem compares_outside :
    compareReads ["**"] [] = none ∧ ¬StaysInside noFiles ["/%%"] [] := by
  refine ⟨rfl, fun h => ?_⟩
  have hread := h ["**"] (by decide) [] (by decide)
  exact absurd hread (by decide)

end PathSet

end Osquery.EventPublishers
