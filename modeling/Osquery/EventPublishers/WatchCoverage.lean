import Osquery.EventPublishers.WatchMaps

/-!
# What subscriptions of inotify cover

A subscription covers the paths that its pattern stands for, and those of child directories
when it is recursive. It is served on a path when the descriptor that the kernel has for the
file of the path is recorded for the context of the subscription. Watching paths for a context
serves it on them, and takes nothing from another context unless one of these paths is another
path of a file that it is served on.

## Implementation notes

A file of the kernel may have several paths. The kernel adds every watch, keeps the descriptor
of a file as long as it watches it, and has no descriptor for two files.
-/

namespace Osquery.EventPublishers

open Core Foundation

/-! ### Patterns -/

theorem stem_head {cs p : List Char} (h : stem cs = some p) (c : Char) (rest : List Char)
    (hp : p = c :: rest) : ∃ rest', cs = c :: rest' := by
  subst hp
  fun_cases stem cs with
  | case1 => simp [stem] at h
  | case2 tail => simp [stem] at h
  | case3 c' cs hne =>
      rw [stem, Option.map_eq_some_iff] at h
      · obtain ⟨p, -, heq⟩ := h
        exact ⟨cs, by rw [(List.cons.inj heq).1]⟩
      · exact hne

/-- What stands before the first double wildcard has none. -/
theorem stem_of_stem {cs p : List Char} (h : stem cs = some p) : stem p = none := by
  fun_induction stem cs generalizing p with
  | case1 => cases h
  | case2 tail =>
      obtain rfl := Option.some.inj h
      rfl
  | case3 c cs hne ih =>
      obtain ⟨p, hp, rfl⟩ := Option.map_eq_some_iff.mp h
      rw [stem, ih hp]
      · rfl
      · rintro tail rfl rfl
        obtain ⟨rest, rfl⟩ := stem_head hp '*' tail rfl
        exact hne rest rfl rfl

theorem stem_append_slash {cs : List Char} (h : stem cs = none) : stem (cs ++ ['/']) = none := by
  fun_induction stem cs with
  | case1 => rfl
  | case2 tail => cases h
  | case3 c cs hne ih =>
      rw [Option.map_eq_none_iff] at h
      rw [List.cons_append, stem, ih h]
      · rfl
      · rintro tail rfl hcs
        cases cs with
        | nil => simp at hcs
        | cons c cs =>
            obtain ⟨rfl, -⟩ := List.cons.inj hcs
            exact hne cs rfl rfl

theorem hasWildcard_append_slash (path : String) :
    hasWildcard (path ++ "/") = hasWildcard path := by
  simp [hasWildcard, String.toList_append]

theorem endsWithSlash_append_slash (path : String) : endsWithSlash (path ++ "/") = true := by
  simp [endsWithSlash, String.toList_append]

/-- A path without a double wildcard, and what it becomes. -/
theorem discover_of_stem_eq_none (fs : WatchedFileSystem) {path : String} (recursive : Bool)
    (h : stem path.toList = none) :
    (discover fs path recursive).recursive = recursive ∧
      ((discover fs path recursive).path = path ∨
        (discover fs path recursive).path = path ++ "/" ∧ hasWildcard path = false ∧
          discover fs path recursive = ⟨path ++ "/", recursive, false, [path ++ "/"]⟩) := by
  simp only [discover, h, Option.isSome_none, Bool.or_false, Option.map_none, Option.getD_none]
  by_cases hleaf : hasWildcard path = true ∧ hasWildcard (fs.filename path) = true
  · rw [if_pos hleaf]
    have hends := endsWithSlash_append_slash (fs.parent_path path)
    simp only [hends, not_true_eq_false, and_false, if_false]
    split
    · exact ⟨rfl, .inl rfl⟩
    · exact ⟨rfl, .inl rfl⟩
  · rw [if_neg hleaf]
    cases hwild : hasWildcard path with
    | true => exact ⟨rfl, .inl rfl⟩
    | false =>
        simp only [Bool.false_eq_true, false_and, if_false]
        split
        · exact ⟨rfl, .inr ⟨rfl, trivial, rfl⟩⟩
        · exact ⟨rfl, .inl rfl⟩

theorem discover_append_slash (fs : WatchedFileSystem) {path : String} (recursive : Bool)
    (h : stem path.toList = none) (hplain : hasWildcard path = false) :
    discover fs (path ++ "/") recursive = ⟨path ++ "/", recursive, false, [path ++ "/"]⟩ := by
  have hslash : stem (path ++ "/").toList = none := by
    rw [String.toList_append]
    exact stem_append_slash h
  have hwild : hasWildcard (path ++ "/") = false := by
    rw [hasWildcard_append_slash, hplain]
  simp only [discover, hslash, hwild, endsWithSlash_append_slash, Option.isSome_none,
    Bool.or_false, Option.map_none, Option.getD_none, Bool.false_eq_true, false_and, if_false,
    not_true_eq_false, and_false]

theorem stem_stemmed (path : String) :
    stem (((stem path.toList).map String.ofList).getD path).toList = none := by
  cases h : stem path.toList with
  | none => exact h
  | some p =>
      rw [Option.map_some, Option.getD_some, String.toList_ofList]
      exact stem_of_stem h

theorem discover_stemmed (fs : WatchedFileSystem) (path : String) (recursive : Bool) :
    discover fs path recursive = discover fs (((stem path.toList).map String.ofList).getD path)
      (recursive || (stem path.toList).isSome) := by
  rw [discover, discover, stem_stemmed]
  simp only [Option.isSome_none, Bool.or_false, Option.map_none, Option.getD_none]

/-- A path that was discovered stands for itself. -/
theorem discover_discover (fs : WatchedFileSystem) (path : String) (recursive : Bool) :
    discover fs (discover fs path recursive).path (discover fs path recursive).recursive =
      discover fs path recursive := by
  rw [discover_stemmed fs path recursive]
  have hstem := stem_stemmed path
  obtain ⟨hrecursive, hpath | ⟨hpath, hplain, heq⟩⟩ := discover_of_stem_eq_none fs
    (recursive || (stem path.toList).isSome) hstem
  · rw [hrecursive, hpath]
  · rw [hrecursive, hpath, heq]
    exact discover_append_slash fs _ hstem hplain

/-! ### Coverage -/

/-- The paths that watching a path stands for. -/
def watchedPaths (fs : WatchedFileSystem) (recursive : Bool) (path : String) : List String :=
  path :: if recursive ∧ fs.isDirectory path then
    (fs.listDirectoriesInDirectory path).map fun child => fs.canonical child ++ "/" else []

/-- The existing paths that a subscription covers. -/
def coverage (fs : WatchedFileSystem) (c : INotifySubscriptionContext) : List String :=
  ((discover fs c.path c.recursive).paths.filter fun path => (fs.st_ctime path).isSome).flatMap
    (watchedPaths fs (discover fs c.path c.recursive).recursive)

/-- A context whose path was discovered. -/
def Settled (fs : WatchedFileSystem) (c : INotifySubscriptionContext) : Prop :=
  (discover fs c.path c.recursive).path = c.path ∧
    (discover fs c.path c.recursive).recursive = c.recursive

theorem mem_coverage {fs : WatchedFileSystem} {c : INotifySubscriptionContext} {p q : String}
    {t : Int} (hp : p ∈ (discover fs c.path c.recursive).paths) (ht : fs.st_ctime p = some t)
    (hq : q ∈ watchedPaths fs (discover fs c.path c.recursive).recursive p) :
    q ∈ coverage fs c := by
  apply List.mem_flatMap.mpr
  refine ⟨p, ?_, hq⟩
  rw [List.mem_filter, ht]
  exact ⟨hp, rfl⟩

/-! ### The kernel -/

variable {κ φ : Type}

/-- How a kernel that adds every watch assigns descriptors to files. -/
structure Inotify.Lawful (k : Inotify κ) (live : κ → φ → Option Int) (file : String → φ) :
    Prop where
  distinct : ∀ {kernel f f' d}, live kernel f = some d → live kernel f' = some d → f = f'
  added : ∀ kernel path mask, (k.inotify_add_watch kernel path mask).1 ≠ -1
  live_self : ∀ kernel path mask, live (k.inotify_add_watch kernel path mask).2 (file path) =
    some (k.inotify_add_watch kernel path mask).1
  live_other : ∀ kernel path mask {f}, f ≠ file path →
    live (k.inotify_add_watch kernel path mask).2 f = live kernel f
  same : ∀ {kernel path d}, live kernel (file path) = some d →
    ∀ mask, (k.inotify_add_watch kernel path mask).1 = d
  live_removed : ∀ kernel d f, live (k.inotify_rm_watch kernel d) f =
    if live kernel f = some d then none else live kernel f

theorem Inotify.Lawful.live_removes {k : Inotify κ} {live : κ → φ → Option Int}
    {file : String → φ} (hk : k.Lawful live file) (watches : List Int) (kernel : κ) {f : φ}
    (h : ∀ d ∈ watches, live kernel f ≠ some d) :
    live (watches.foldl k.inotify_rm_watch kernel) f = live kernel f := by
  induction watches generalizing kernel with
  | nil => rfl
  | cons d watches ih =>
      have hself : live (k.inotify_rm_watch kernel d) f = live kernel f := by
        rw [hk.live_removed, if_neg (h d (List.mem_cons_self ..))]
      rw [List.foldl_cons, ih, hself]
      intro d' hd'
      rw [hself]
      exact h d' (List.mem_cons_of_mem _ hd')

namespace INotifyEventPublisher

variable {k : Inotify κ} (fs : WatchedFileSystem) (live : κ → φ → Option Int)
  (file : String → φ)

/-- The descriptor of the file of a path is recorded for a context. -/
def Serves (s : INotifyEventPublisher κ) (isc : ContextRef) (path : String) : Prop :=
  ∃ wd, live s.kernel (file path) = some wd ∧ s.descriptor_inosubctx_[wd]? = some isc

/-- The maps agree with each other, and with the kernel. -/
structure Tracks (s : INotifyEventPublisher κ) : Prop where
  consistent : s.Consistent
  live : ∀ i (wd : Int) path, (s.contexts i).descriptor_paths_[wd]? = some path →
    live s.kernel (file path) = some wd

/-- Watching files for a context takes no other file from another context. -/
structure Watches (isc : ContextRef) (watched : φ → Prop) (s s' : INotifyEventPublisher κ) :
    Prop where
  tracks : Tracks live file s'
  serves : ∀ i q, Serves live file s i q → i = isc ∨ ¬ watched (file q) →
    Serves live file s' i q

variable {live file} {s s' s'' : INotifyEventPublisher κ} {isc : ContextRef}
  {watched : φ → Prop}

theorem Watches.refl (h : Tracks live file s) : Watches live file isc watched s s :=
  ⟨h, fun _ _ hserves _ => hserves⟩

theorem Watches.trans (h : Watches live file isc watched s s')
    (h' : Watches live file isc watched s' s'') : Watches live file isc watched s s'' :=
  ⟨h'.tracks, fun i q hserves hi => h'.serves i q (h.serves i q hserves hi) hi⟩

theorem Watches.mono {watched' : φ → Prop} (h : Watches live file isc watched s s')
    (hle : ∀ f, watched f → watched' f) : Watches live file isc watched' s s' :=
  ⟨h.tracks, fun i q hserves hi => h.serves i q hserves (hi.imp_right fun hq hf => hq (hle _ hf))⟩

/-- Nothing that a path is served by changes with the rest of a context. -/
theorem Tracks.modifyContext (h : Tracks live file s) (isc : ContextRef) (watched : φ → Prop)
    (f : INotifySubscriptionContext → INotifySubscriptionContext)
    (hf : ∀ c, (f c).descriptor_paths_ = c.descriptor_paths_) :
    Watches live file isc watched s (s.modifyContext isc f) := by
  obtain ⟨o, hrep⟩ := s.consistent_iff.mp h.consistent
  have hrep' := hrep.modifyContext isc f hf
  refine ⟨⟨(consistent_iff _).mpr ⟨o, hrep'⟩, ?_⟩, fun _ _ hserves _ => hserves⟩
  intro i wd path hpath
  rw [hrep'.held, ← hrep.held] at hpath
  exact h.live i wd path hpath

/-- A path that is watched is served, and nothing else is taken from another context. -/
theorem Tracks.watchPath (hk : k.Lawful live file) (h : Tracks live file s) (path : String)
    (isc : ContextRef) (mask : UInt32) :
    (s.watchPath k path isc mask true).1 = true ∧
      Frame s (s.watchPath k path isc mask true).2 ∧
      Watches live file isc (· = file path) s (s.watchPath k path isc mask true).2 ∧
      Serves live file (s.watchPath k path isc mask true).2 isc path := by
  obtain ⟨o, hrep⟩ := s.consistent_iff.mp h.consistent
  have hadded : (s.addedWatch k path mask).1 ≠ -1 := hk.added _ _ _
  obtain ⟨hsucceeded, hrep', hkernel, hframe⟩ := hrep.watchPath k path isc mask
    fun hfailed : true = true ∧ _ => hadded hfailed.2
  have hself : live (s.watchPath k path isc mask true).2.kernel (file path) =
      some (s.addedWatch k path mask).1 := by
    rw [hkernel]
    exact hk.live_self ..
  have hother : ∀ f, f ≠ file path →
      live (s.watchPath k path isc mask true).2.kernel f = live s.kernel f := by
    intro f hf
    rw [hkernel]
    exact hk.live_other _ _ _ hf
  refine ⟨hsucceeded, hframe, ⟨⟨(consistent_iff _).mpr ⟨_, hrep'⟩, ?_⟩, ?_⟩, ?_⟩
  · intro i wd p hp
    rw [hrep'.held, Ownership.held_assign] at hp
    by_cases hwd : wd = (s.addedWatch k path mask).1
    · rw [if_pos hwd] at hp
      obtain ⟨-, heq⟩ := Option.ite_none_right_eq_some.mp hp
      obtain rfl := Option.some.inj heq
      rw [hself, hwd]
    · rw [if_neg hwd, ← hrep.held] at hp
      have hlive := h.live i wd p hp
      rw [hother, hlive]
      intro hfile
      rw [hfile] at hlive
      exact hwd (hk.same hlive _).symm
  · rintro i q ⟨wd, hlive, howner⟩ hi
    by_cases hfile : file q = file path
    · have hsame : (s.addedWatch k path mask).1 = wd := by
        rw [hfile] at hlive
        exact hk.same hlive _
      obtain rfl : i = isc := hi.resolve_right fun hne => hne hfile
      refine ⟨wd, ?_, ?_⟩
      · rw [hfile, hself, hsame]
      · rw [hrep'.owner, Ownership.owner_assign, if_pos hsame.symm]
    · refine ⟨wd, ?_, ?_⟩
      · rw [hother _ hfile, hlive]
      · have hne : wd ≠ (s.addedWatch k path mask).1 := by
          rintro rfl
          rw [← hother _ hfile] at hlive
          exact hfile (hk.distinct hlive hself)
        rw [hrep'.owner, Ownership.owner_assign, if_neg hne, ← hrep.owner, howner]
  · refine ⟨_, hself, ?_⟩
    rw [hrep'.owner, Ownership.owner_assign, if_pos rfl]

/-- Several paths are watched one after another. -/
theorem Tracks.watchPaths (hk : k.Lawful live file) (h : Tracks live file s)
    (paths : List String) (isc : ContextRef) (mask : UInt32) :
    let s' := paths.foldl (fun s path => (s.watchPath k path isc mask true).2) s
    Frame s s' ∧ Watches live file isc (fun f => ∃ q ∈ paths, file q = f) s s' ∧
      ∀ q ∈ paths, Serves live file s' isc q := by
  induction paths generalizing s with
  | nil => exact ⟨Frame.refl s, Watches.refl h, fun q hq => absurd hq List.not_mem_nil⟩
  | cons path paths ih =>
      obtain ⟨-, hframe, hwatches, hserves⟩ := h.watchPath hk path isc mask
      obtain ⟨hframe', hwatches', hserves'⟩ := ih hwatches.tracks
      refine ⟨hframe.trans hframe', ?_, ?_⟩
      · apply Watches.trans
        · apply hwatches.mono
          rintro f rfl
          exact ⟨path, List.mem_cons_self .., rfl⟩
        · apply hwatches'.mono
          rintro f ⟨q, hq, rfl⟩
          exact ⟨q, List.mem_cons_of_mem _ hq, rfl⟩
      · intro q hq
        rcases List.mem_cons.mp hq with rfl | hq
        · exact hwatches'.serves isc q hserves (.inl rfl)
        · exact hserves' q hq

/-- A monitor watches a path, and those of the child directories when it is recursive. -/
theorem Tracks.addMonitor (hk : k.Lawful live file) (h : Tracks live file s) (path : String)
    (isc : ContextRef) (mask : UInt32) (recursive : Bool) :
    (s.addMonitor k fs path isc mask recursive true).1 = true ∧
      Frame s (s.addMonitor k fs path isc mask recursive true).2 ∧
      Watches live file isc (fun f => ∃ q ∈ watchedPaths fs recursive path, file q = f) s
        (s.addMonitor k fs path isc mask recursive true).2 ∧
      ∀ q ∈ watchedPaths fs recursive path,
        Serves live file (s.addMonitor k fs path isc mask recursive true).2 isc q := by
  obtain ⟨hadded, -⟩ := h.watchPath hk path isc mask
  have hpaths := h.watchPaths hk (watchedPaths fs recursive path) isc mask
  rw [INotifyEventPublisher.addMonitor]
  by_cases hchildren : recursive = true ∧ fs.isDirectory path = true
  · rw [if_pos ⟨hadded, hchildren⟩]
    simp only [watchedPaths, if_pos hchildren, List.foldl_cons, List.foldl_map] at hpaths ⊢
    exact ⟨trivial, hpaths⟩
  · rw [if_neg fun hall => hchildren hall.2]
    simp only [watchedPaths, if_neg hchildren, List.foldl_cons, List.foldl_nil] at hpaths ⊢
    exact ⟨hadded, hpaths⟩

end INotifyEventPublisher

end Osquery.EventPublishers
