import Osquery.EventPublishers.WatchConsistency
import Osquery.EventPublishers.WatchCoverage

/-!
# Whom the inotify publisher serves

A path is watched for a subscription again only when its status change time is not the one
that the context recorded. A descriptor has one context, so a subscription that covers a file
of another one takes it, for good: the times of the other have not changed. A configuration
serves all of its subscriptions on all that they cover exactly when no two of them cover a file
together.

## Implementation notes

The file system is fixed. A time of zero is what a context has for a path before it records
one, so a path with that time is never watched. The context of a subscription that was deleted
keeps the times that it recorded.
-/

namespace Osquery.EventPublishers.INotifyEventPublisher

open Core Foundation

variable {κ φ : Type} {k : Inotify κ} (fs : WatchedFileSystem) {live : κ → φ → Option Int}
  {file : String → φ}

/-! ### What monitoring keeps -/

/-- What monitoring keeps of all subscriptions, whoever is served. -/
structure Keeps (s s' : INotifyEventPublisher κ) : Prop where
  subscriptions : s'.subscriptions_ = s.subscriptions_
  handle : s'.inotify_handle_ = s.inotify_handle_
  mark : ∀ i, (s'.contexts i).mark_for_deletion = (s.contexts i).mark_for_deletion
  discovery : ∀ i, discover fs (s'.contexts i).path (s'.contexts i).recursive =
    discover fs (s.contexts i).path (s.contexts i).recursive

section Keeps

variable {s s' s'' : INotifyEventPublisher κ}

theorem Keeps.trans (h : Keeps fs s s') (h' : Keeps fs s' s'') : Keeps fs s s'' :=
  ⟨h'.subscriptions.trans h.subscriptions, h'.handle.trans h.handle,
    fun i => (h'.mark i).trans (h.mark i), fun i => (h'.discovery i).trans (h.discovery i)⟩

theorem Frame.keeps (h : Frame s s') : Keeps fs s s' := by
  refine ⟨h.subscriptions, h.handle, fun i => ?_, fun i => ?_⟩
  · obtain ⟨-, -, hmark, -⟩ := INotifySubscriptionContext.eq_of_settings (h.settings i)
    exact hmark
  · obtain ⟨hpath, hrecursive, -⟩ := INotifySubscriptionContext.eq_of_settings (h.settings i)
    rw [hpath, hrecursive]

/-- A change of a context that leaves its mark and what its path stands for. -/
theorem keeps_modifyContext (s : INotifyEventPublisher κ) (isc : ContextRef)
    (f : INotifySubscriptionContext → INotifySubscriptionContext)
    (hmark : (f (s.contexts isc)).mark_for_deletion = (s.contexts isc).mark_for_deletion)
    (hdiscovery : discover fs (f (s.contexts isc)).path (f (s.contexts isc)).recursive =
      discover fs (s.contexts isc).path (s.contexts isc).recursive) :
    Keeps fs s (s.modifyContext isc f) := by
  refine ⟨rfl, rfl, fun i => ?_, fun i => ?_⟩
  · by_cases hi : i = isc
    · subst hi
      rw [contexts_modifyContext_self, hmark]
    · rw [contexts_modifyContext_of_ne s hi]
  · by_cases hi : i = isc
    · subst hi
      rw [contexts_modifyContext_self, hdiscovery]
    · rw [contexts_modifyContext_of_ne s hi]

theorem Consistent.frame_watchPath (h : s.Consistent) (path : String) (isc : ContextRef)
    (mask : UInt32) (add_watch : Bool) : Frame s (s.watchPath k path isc mask add_watch).2 := by
  by_cases hadded : add_watch = true ∧ (s.addedWatch k path mask).1 = -1
  · rw [watchPath_of_failed k hadded]
    exact frame_withKernel s _
  · obtain ⟨o, hrep⟩ := s.consistent_iff.mp h
    exact (hrep.watchPath k path isc mask hadded).2.frame

theorem Consistent.frame_addMonitor (h : s.Consistent) (path : String) (isc : ContextRef)
    (mask : UInt32) (recursive add_watch : Bool) :
    Frame s (s.addMonitor k fs path isc mask recursive add_watch).2 := by
  have hadded := h.watchPath k path isc mask add_watch
  have hframe := h.frame_watchPath (k := k) path isc mask add_watch
  rw [INotifyEventPublisher.addMonitor]
  split
  · apply And.right
    apply List.foldlRecOn (motive := fun s' : INotifyEventPublisher κ =>
      s'.Consistent ∧ Frame s s')
    · exact ⟨hadded, hframe⟩
    · rintro s' ⟨hs', hframe'⟩ child -
      exact ⟨hs'.watchPath k _ isc mask true, hframe'.trans (hs'.frame_watchPath _ isc mask true)⟩
  · exact hframe

theorem Consistent.keeps_needMonitoring (h : s.Consistent) (path : String) (isc : ContextRef) :
    Keeps fs s (s.needMonitoring k fs path isc) := by
  have hread := s.keeps_modifyContext fs isc
    (fun c => { c with path_sc_time_ := c.path_sc_time_.insertIfNew path 0 }) rfl rfl
  have hconsistent := h.modifyContext isc
    (fun c => { c with path_sc_time_ := c.path_sc_time_.insertIfNew path 0 }) fun _ => rfl
  rw [INotifyEventPublisher.needMonitoring]
  cases fs.st_ctime path with
  | none => exact hread
  | some st_ctime =>
      simp only
      split
      · have hadded (mask : UInt32) (recursive : Bool) := hread.trans fs
          ((hconsistent.frame_addMonitor (k := k) fs path isc mask recursive true).keeps fs)
        split
        · exact (hadded _ _).trans fs (keeps_modifyContext fs _ isc _ rfl rfl)
        · exact hadded _ _
      · exact hread

theorem Consistent.keeps_monitorSubscription (h : s.Consistent) (sc : ContextRef) :
    Keeps fs s (s.monitorSubscription k fs sc) := by
  rw [INotifyEventPublisher.monitorSubscription]
  apply And.right
  apply List.foldlRecOn (motive := fun s' : INotifyEventPublisher κ =>
    s'.Consistent ∧ Keeps fs s s')
  · refine ⟨h.modifyContext sc _ fun _ => rfl, keeps_modifyContext fs s sc _ rfl ?_⟩
    exact discover_discover fs _ _
  · rintro s' ⟨hs', hkeeps⟩ path -
    exact ⟨hs'.needMonitoring k fs path sc, hkeeps.trans fs (hs'.keeps_needMonitoring fs path sc)⟩

end Keeps

/-! ### Recorded times -/

/-- Where a context recorded a time, its subscription is served. -/
def Recorded (live : κ → φ → Option Int) (file : String → φ) (s : INotifyEventPublisher κ)
    (isc : ContextRef) : Prop :=
  ∀ (p : String) t, (s.contexts isc).path_sc_time_[p]? = some t → t ≠ 0 →
    Settled fs (s.contexts isc) ∧
    p ∈ (discover fs (s.contexts isc).path (s.contexts isc).recursive).paths ∧
    fs.st_ctime p = some t ∧
    ∀ q ∈ watchedPaths fs (s.contexts isc).recursive p, Serves live file s isc q

/-- The files that a context covers. -/
def covers (file : String → φ) (s : INotifyEventPublisher κ) (isc : ContextRef) (f : φ) : Prop :=
  ∃ q ∈ coverage fs (s.contexts isc), file q = f

section Contexts

variable {s s' : INotifyEventPublisher κ} {isc : ContextRef}

/-- A context keeps its records when it is still served. -/
theorem Recorded.mono (h : Recorded fs live file s isc)
    (hpath : (s'.contexts isc).path = (s.contexts isc).path)
    (hrecursive : (s'.contexts isc).recursive = (s.contexts isc).recursive)
    (htimes : (s'.contexts isc).path_sc_time_ = (s.contexts isc).path_sc_time_)
    (hserves : ∀ q ∈ coverage fs (s.contexts isc), Serves live file s isc q →
      Serves live file s' isc q) :
    Recorded fs live file s' isc := by
  intro p t ht hne
  rw [htimes] at ht
  obtain ⟨hsettled, hp, hctime, hall⟩ := h p t ht hne
  rw [Settled, hpath, hrecursive]
  refine ⟨hsettled, hp, hctime, ?_⟩
  intro q hq
  apply hserves q _ (hall q hq)
  apply mem_coverage hp hctime
  rw [hsettled.2]
  exact hq

theorem Recorded.of_settings (h : Recorded fs live file s isc)
    (hsettings : (s'.contexts isc).settings = (s.contexts isc).settings)
    (hserves : ∀ q ∈ coverage fs (s.contexts isc), Serves live file s isc q →
      Serves live file s' isc q) :
    Recorded fs live file s' isc := by
  obtain ⟨hpath, hrecursive, -, htimes⟩ := INotifySubscriptionContext.eq_of_settings hsettings
  exact h.mono fs hpath hrecursive htimes hserves

/-- The time that a context has for a path after the path was considered. -/
theorem getElem?_noted (times : Std.ExtTreeMap String Int) (path x : String) :
    (times.insertIfNew path 0)[x]? =
      if x = path then some (times.getD path 0) else times[x]? := by
  rw [Std.ExtTreeMap.getElem?_insertIfNew, Std.ExtTreeMap.getD_eq_getD_getElem?]
  simp only [compare_eq_iff_eq, Std.ExtTreeMap.mem_iff_isSome_getElem?, @eq_comm _ path x]
  by_cases hx : x = path
  · subst hx
    cases times[x]? with
    | none => simp
    | some t => simp
  · simp [hx]

/-- What monitoring paths for a context does. -/
structure Monitors (live : κ → φ → Option Int) (file : String → φ) (isc : ContextRef)
    (s s' : INotifyEventPublisher κ) : Prop where
  settings : ∀ i, i ≠ isc → (s'.contexts i).settings = (s.contexts i).settings
  path : (s'.contexts isc).path = (s.contexts isc).path
  recursive : (s'.contexts isc).recursive = (s.contexts isc).recursive
  times : ∀ (p : String) t, t ≠ 0 → (s.contexts isc).path_sc_time_[p]? = some t →
    (s'.contexts isc).path_sc_time_[p]? = some t
  watches : Watches live file isc (covers fs file s isc) s s'
  recorded : Recorded fs live file s' isc

theorem Monitors.covers_eq (h : Monitors fs live file isc s s') :
    covers fs file s' isc = covers fs file s isc := by
  funext f
  rw [covers, covers, coverage, coverage, h.path, h.recursive]

theorem Monitors.refl (h : Tracks live file s) (hrecorded : Recorded fs live file s isc) :
    Monitors fs live file isc s s :=
  ⟨fun _ _ => rfl, rfl, rfl, fun _ _ _ h => h, Watches.refl h, hrecorded⟩

theorem Monitors.trans {s'' : INotifyEventPublisher κ} (h : Monitors fs live file isc s s')
    (h' : Monitors fs live file isc s' s'') : Monitors fs live file isc s s'' where
  settings i hi := (h'.settings i hi).trans (h.settings i hi)
  path := h'.path.trans h.path
  recursive := h'.recursive.trans h.recursive
  times p t ht hp := h'.times p t ht (h.times p t ht hp)
  watches := h.watches.trans (h.covers_eq ▸ h'.watches)
  recorded := h'.recorded

/-- A context records a time for one of its paths, where it is served if the time is not
zero. -/
theorem Monitors.noteTime (hrecorded : Recorded fs live file s isc)
    (hsettled : Settled fs (s.contexts isc)) {path : String}
    (hpath : path ∈ (discover fs (s.contexts isc).path (s.contexts isc).recursive).paths)
    (hframe : Frame s s') (hwatches : Watches live file isc (covers fs file s isc) s s')
    (note : Std.ExtTreeMap String Int → Std.ExtTreeMap String Int) {v : Int}
    (hnote : ∀ x : String, (note (s.contexts isc).path_sc_time_)[x]? =
      if x = path then some v else (s.contexts isc).path_sc_time_[x]?)
    (hserves : v ≠ 0 → fs.st_ctime path = some v ∧
      ∀ q ∈ watchedPaths fs (s.contexts isc).recursive path, Serves live file s' isc q)
    (hkept : ∀ t, t ≠ 0 → (s.contexts isc).path_sc_time_[path]? = some t → v = t) :
    Monitors fs live file isc s
      (s'.modifyContext isc fun c => { c with path_sc_time_ := note c.path_sc_time_ }) := by
  obtain ⟨hpath', hrecursive, -, htimes⟩ :=
    INotifySubscriptionContext.eq_of_settings (hframe.settings isc)
  have hmodified := hwatches.tracks.modifyContext isc (covers fs file s isc)
    (fun c => { c with path_sc_time_ := note c.path_sc_time_ }) fun _ => rfl
  constructor
  · intro i hi
    rw [contexts_modifyContext_of_ne _ hi, hframe.settings]
  · rw [contexts_modifyContext_self, hpath']
  · rw [contexts_modifyContext_self, hrecursive]
  · intro p t hne ht
    rw [contexts_modifyContext_self]
    simp only [htimes, hnote]
    split
    · next hp =>
        rw [hp] at ht
        rw [hkept t hne ht]
    · exact ht
  · exact hwatches.trans hmodified
  · intro p t ht hne
    rw [contexts_modifyContext_self] at ht ⊢
    simp only [htimes, hnote] at ht
    rw [Settled]
    simp only [hpath', hrecursive]
    split at ht
    · next hp =>
        obtain rfl := Option.some.inj ht
        obtain ⟨hctime, hall⟩ := hserves hne
        subst hp
        exact ⟨hsettled, hpath, hctime, hall⟩
    · obtain ⟨-, hp, hctime, hall⟩ := hrecorded p t ht hne
      refine ⟨hsettled, hp, hctime, ?_⟩
      intro q hq
      exact hwatches.serves isc q (hall q hq) (.inl rfl)

/-- Reading the time of a path leaves a time of zero where there was none. -/
theorem Monitors.readTime (h : Tracks live file s) (hrecorded : Recorded fs live file s isc)
    (hsettled : Settled fs (s.contexts isc)) {path : String}
    (hpath : path ∈ (discover fs (s.contexts isc).path (s.contexts isc).recursive).paths) :
    Monitors fs live file isc s (s.modifyContext isc fun c =>
      { c with path_sc_time_ := c.path_sc_time_.insertIfNew path 0 }) := by
  have hread : (s.contexts isc).path_sc_time_.getD path 0 =
      (s.contexts isc).path_sc_time_[path]?.getD 0 := Std.ExtTreeMap.getD_eq_getD_getElem?
  apply Monitors.noteTime fs hrecorded hsettled hpath (Frame.refl s) (Watches.refl h)
    (fun times => times.insertIfNew path 0) (getElem?_noted _ path)
  · intro hne
    have ht : (s.contexts isc).path_sc_time_[path]? =
        some ((s.contexts isc).path_sc_time_.getD path 0) := by
      rw [hread] at hne ⊢
      cases hget : (s.contexts isc).path_sc_time_[path]? with
      | none => simp [hget] at hne
      | some t => rfl
    obtain ⟨-, -, hctime, hall⟩ := hrecorded path _ ht hne
    exact ⟨hctime, hall⟩
  · intro t _ ht
    rw [hread, ht, Option.getD_some]

/-- A path whose time has changed is watched, and its time is recorded. -/
theorem Monitors.watchChanged (hk : k.Lawful live file) (h : Tracks live file s)
    (hrecorded : Recorded fs live file s isc) (hsettled : Settled fs (s.contexts isc))
    {path : String} {t : Int}
    (hpath : path ∈ (discover fs (s.contexts isc).path (s.contexts isc).recursive).paths)
    (hctime : fs.st_ctime path = some t) :
    (s.addMonitor k fs path isc (s.contexts isc).mask (s.contexts isc).recursive true).1 = true ∧
      Monitors fs live file isc s
        ((s.addMonitor k fs path isc (s.contexts isc).mask
          (s.contexts isc).recursive true).2.modifyContext isc fun c =>
            { c with path_sc_time_ := c.path_sc_time_.insert path t }) := by
  obtain ⟨hadded, hframe, hwatches, hserves⟩ :=
    h.addMonitor fs hk path isc (s.contexts isc).mask (s.contexts isc).recursive
  have hcovered : Watches live file isc (covers fs file s isc) s
      (s.addMonitor k fs path isc (s.contexts isc).mask (s.contexts isc).recursive true).2 := by
    refine hwatches.mono ?_
    rintro f ⟨q, hq, hf⟩
    refine ⟨q, mem_coverage hpath hctime ?_, hf⟩
    rw [hsettled.2]
    exact hq
  refine ⟨hadded, ?_⟩
  apply Monitors.noteTime fs hrecorded hsettled hpath hframe hcovered
    (fun times => times.insert path t) (v := t)
  · intro x
    rw [Std.ExtTreeMap.getElem?_insert]
    simp only [compare_eq_iff_eq, @eq_comm _ path x]
  · exact fun _ => ⟨hctime, hserves⟩
  · intro t' hne ht'
    obtain ⟨-, -, hctime', -⟩ := hrecorded path t' ht' hne
    exact Option.some.inj (hctime.symm.trans hctime')

/-- A path that a subscription stands for is watched unless its recorded time is its time. -/
theorem Monitors.needMonitoring (hk : k.Lawful live file) (h : Tracks live file s)
    (hrecorded : Recorded fs live file s isc) (hsettled : Settled fs (s.contexts isc))
    {path : String}
    (hpath : path ∈ (discover fs (s.contexts isc).path (s.contexts isc).recursive).paths) :
    Monitors fs live file isc s (s.needMonitoring k fs path isc) ∧
      ∀ t, fs.st_ctime path = some t → t ≠ 0 →
        ((s.needMonitoring k fs path isc).contexts isc).path_sc_time_[path]? = some t := by
  have hread := Monitors.readTime fs h hrecorded hsettled hpath
  rw [INotifyEventPublisher.needMonitoring]
  cases hctime : fs.st_ctime path with
  | none => exact ⟨hread, fun t ht => absurd ht (Option.some_ne_none t).symm⟩
  | some t =>
      simp only
      split
      · have hsettled' : Settled fs ((s.modifyContext isc fun c =>
            { c with path_sc_time_ := c.path_sc_time_.insertIfNew path 0 }).contexts isc) := by
          rw [Settled, hread.path, hread.recursive]
          exact hsettled
        have hpath' := hpath
        rw [← hread.path, ← hread.recursive] at hpath'
        obtain ⟨hadded, hchanged⟩ := Monitors.watchChanged fs hk hread.watches.tracks
          hread.recorded hsettled' hpath' hctime
        rw [if_pos hadded]
        refine ⟨hread.trans fs hchanged, ?_⟩
        intro t' ht' _
        rw [contexts_modifyContext_self]
        simp only [Std.ExtTreeMap.getElem?_insert_self]
        exact ht'
      · next hsame =>
          refine ⟨hread, ?_⟩
          intro t' ht' _
          rw [contexts_modifyContext_self]
          simp only [getElem?_noted, if_true]
          rw [← ht', not_not.mp hsame]

/-- Every path of a subscription is considered. -/
theorem Monitors.needMonitorings (hk : k.Lawful live file) (h : Tracks live file s)
    (hrecorded : Recorded fs live file s isc) (hsettled : Settled fs (s.contexts isc))
    (paths : List String) (hpaths : ∀ path ∈ paths,
      path ∈ (discover fs (s.contexts isc).path (s.contexts isc).recursive).paths) :
    let s' := paths.foldl (fun s path => s.needMonitoring k fs path isc) s
    Monitors fs live file isc s s' ∧ ∀ p ∈ paths, ∀ t, fs.st_ctime p = some t → t ≠ 0 →
      (s'.contexts isc).path_sc_time_[p]? = some t := by
  induction paths generalizing s with
  | nil => exact ⟨Monitors.refl fs h hrecorded, fun p hp => absurd hp List.not_mem_nil⟩
  | cons path paths ih =>
      obtain ⟨hmonitors, htime⟩ := Monitors.needMonitoring fs hk h hrecorded hsettled
        (hpaths path (List.mem_cons_self ..))
      have hsettled' : Settled fs ((s.needMonitoring k fs path isc).contexts isc) := by
        rw [Settled, hmonitors.path, hmonitors.recursive]
        exact hsettled
      obtain ⟨hrest, htimes⟩ := ih hmonitors.watches.tracks hmonitors.recorded hsettled' (by
        intro p hp
        rw [hmonitors.path, hmonitors.recursive]
        exact hpaths p (List.mem_cons_of_mem _ hp))
      refine ⟨hmonitors.trans fs hrest, ?_⟩
      intro p hp t hctime hne
      rcases List.mem_cons.mp hp with rfl | hp
      · exact hrest.times p t hne (htime t hctime hne)
      · exact htimes p hp t hctime hne

/-- No path that a context stands for has the time that stands for none. -/
def Timed (c : INotifySubscriptionContext) : Prop :=
  ∀ path ∈ (discover fs c.path c.recursive).paths, fs.st_ctime path ≠ some 0

/-- What monitoring a subscription does. -/
structure Monitored (live : κ → φ → Option Int) (file : String → φ) (sc : ContextRef)
    (s s' : INotifyEventPublisher κ) : Prop where
  settings : ∀ i, i ≠ sc → (s'.contexts i).settings = (s.contexts i).settings
  watches : Watches live file sc (covers fs file s sc) s s'
  recorded : Recorded fs live file s' sc
  serves : Timed fs (s.contexts sc) → ∀ q ∈ coverage fs (s.contexts sc),
    Serves live file s' sc q

/-- A context whose path becomes what was discovered for it. -/
def settle (d : Discovery) (c : INotifySubscriptionContext) : INotifySubscriptionContext :=
  { c with
    path := d.path
    recursive := d.recursive
    recursive_match := if d.resolved then d.recursive else c.recursive_match }

theorem discover_settle (c : INotifySubscriptionContext) :
    discover fs (settle (discover fs c.path c.recursive) c).path
        (settle (discover fs c.path c.recursive) c).recursive =
      discover fs c.path c.recursive :=
  discover_discover fs c.path c.recursive

theorem settled_settle (c : INotifySubscriptionContext) :
    Settled fs (settle (discover fs c.path c.recursive) c) := by
  rw [Settled, discover_settle]
  exact ⟨rfl, rfl⟩

/-- A settled context keeps its records. -/
theorem Recorded.settle (h : Recorded fs live file s isc) :
    Recorded fs live file (s.modifyContext isc (INotifyEventPublisher.settle
      (discover fs (s.contexts isc).path (s.contexts isc).recursive))) isc := by
  intro p t ht hne
  rw [contexts_modifyContext_self] at ht ⊢
  obtain ⟨hsettled, hp, hctime, hall⟩ := h p t ht hne
  refine ⟨settled_settle fs _, ?_, hctime, ?_⟩
  · rw [discover_settle]
    exact hp
  · intro q hq
    apply hall q
    rw [← hsettled.2]
    exact hq

theorem monitorSubscription_eq (s : INotifyEventPublisher κ) (sc : ContextRef) :
    s.monitorSubscription k fs sc =
      (discover fs (s.contexts sc).path (s.contexts sc).recursive).paths.foldl
        (fun s path => s.needMonitoring k fs path sc)
        (s.modifyContext sc
          (settle (discover fs (s.contexts sc).path (s.contexts sc).recursive))) :=
  rfl

theorem Monitored.monitorSubscription (hk : k.Lawful live file) (h : Tracks live file s)
    (hrecorded : Recorded fs live file s isc) :
    Monitored fs live file isc s (s.monitorSubscription k fs isc) := by
  rw [monitorSubscription_eq]
  have hcontext := contexts_modifyContext_self s isc
    (settle (discover fs (s.contexts isc).path (s.contexts isc).recursive))
  have hdiscover := discover_settle fs (s.contexts isc)
  have hsettled := settled_settle fs (s.contexts isc)
  have hcovers : covers fs file (s.modifyContext isc (settle
      (discover fs (s.contexts isc).path (s.contexts isc).recursive))) isc =
        covers fs file s isc := by
    funext f
    rw [covers, covers, coverage, coverage, hcontext, hdiscover]
  have hwatches := h.modifyContext isc (covers fs file s isc)
    (settle (discover fs (s.contexts isc).path (s.contexts isc).recursive)) fun _ => rfl
  rw [← hcontext] at hdiscover hsettled
  obtain ⟨hmonitors, htimes⟩ := Monitors.needMonitorings fs hk hwatches.tracks
    (hrecorded.settle fs) hsettled
    (discover fs (s.contexts isc).path (s.contexts isc).recursive).paths
    (by
      intro p hp
      rw [hdiscover]
      exact hp)
  constructor
  · intro i hi
    exact (hmonitors.settings i hi).trans
      (congrArg INotifySubscriptionContext.settings (contexts_modifyContext_of_ne s hi _))
  · exact hwatches.trans (hcovers ▸ hmonitors.watches)
  · exact hmonitors.recorded
  · intro htimed q hq
    rw [coverage, List.mem_flatMap] at hq
    obtain ⟨p, hp, hq⟩ := hq
    obtain ⟨hp, hexists⟩ := List.mem_filter.mp hp
    obtain ⟨t, hctime⟩ := Option.isSome_iff_exists.mp hexists
    have hne : t ≠ 0 := by
      rintro rfl
      exact htimed p hp hctime
    obtain ⟨-, -, -, hall⟩ := hmonitors.recorded p t (htimes p hp t hctime hne) hne
    rw [hmonitors.recursive, hcontext] at hall
    exact hall q hq

/-! ### Configurations -/

/-- What monitoring several subscriptions does. -/
structure MonitoredAll (live : κ → φ → Option Int) (file : String → φ) (subs : List Subscription)
    (s s' : INotifyEventPublisher κ) : Prop where
  tracks : Tracks live file s'
  keeps : Keeps fs s s'
  settings : ∀ i, (∀ sub ∈ subs, sub.context ≠ i) →
    (s'.contexts i).settings = (s.contexts i).settings
  serves : ∀ i q, Serves live file s i q →
    (∀ sub ∈ subs, ¬ covers fs file s sub.context (file q)) → Serves live file s' i q
  each : ∀ sub ∈ subs, Recorded fs live file s' sub.context ∧
    (Timed fs (s.contexts sub.context) → ∀ q ∈ coverage fs (s.contexts sub.context),
      Serves live file s' sub.context q)

/-- No two of the subscriptions cover a file together. -/
def SeparateOn (file : String → φ) (subs : List Subscription) (s : INotifyEventPublisher κ) :
    Prop :=
  ∀ sub ∈ subs, ∀ sub' ∈ subs, sub.context ≠ sub'.context →
    ∀ f, covers fs file s sub.context f → ¬ covers fs file s sub'.context f

theorem Keeps.covers_eq (h : Keeps fs s s') (i : ContextRef) :
    covers fs file s' i = covers fs file s i := by
  funext f
  rw [covers, covers, coverage, coverage, h.discovery]

theorem SeparateOn.tail {sub : Subscription} {subs : List Subscription}
    (h : SeparateOn fs file (sub :: subs) s) (hkeeps : Keeps fs s s') :
    SeparateOn fs file subs s' := by
  intro sub₁ h₁ sub₂ h₂ hne f
  rw [hkeeps.covers_eq, hkeeps.covers_eq]
  exact h sub₁ (List.mem_cons_of_mem _ h₁) sub₂ (List.mem_cons_of_mem _ h₂) hne f

/-- Monitoring one of the subscriptions leaves the others their records. -/
theorem Monitored.recorded_of_separate {sub : Subscription} {subs : List Subscription}
    (h : Monitored fs live file sub.context s s') (hseparate : SeparateOn fs file (sub :: subs) s)
    {sub' : Subscription} (hsub' : sub' ∈ subs) (hne : sub'.context ≠ sub.context)
    (hrecorded : Recorded fs live file s sub'.context) :
    Recorded fs live file s' sub'.context := by
  apply Recorded.of_settings fs hrecorded (h.settings _ hne)
  intro q hq hserves
  apply h.watches.serves _ q hserves
  right
  exact hseparate sub' (List.mem_cons_of_mem _ hsub') sub (List.mem_cons_self ..) hne (file q)
    ⟨q, hq, rfl⟩

/-- What a subscription is served after it was monitored, it is served after the others were. -/
theorem MonitoredAll.serves_of_separate {sub : Subscription} {subs : List Subscription}
    {s'' : INotifyEventPublisher κ} (hkeeps : Keeps fs s s')
    (hall : MonitoredAll fs live file subs s' s'')
    (hne : ∀ sub' ∈ subs, sub'.context ≠ sub.context)
    (hseparate : SeparateOn fs file (sub :: subs) s) :
    ∀ q ∈ coverage fs (s.contexts sub.context),
      Serves live file s' sub.context q → Serves live file s'' sub.context q := by
  intro q hq hserves
  apply hall.serves _ q hserves
  intro sub' hsub'
  rw [hkeeps.covers_eq]
  exact hseparate sub (List.mem_cons_self ..) sub' (List.mem_cons_of_mem _ hsub')
    (hne sub' hsub').symm (file q) ⟨q, hq, rfl⟩

theorem MonitoredAll.cons {sub : Subscription} {subs : List Subscription}
    {s'' : INotifyEventPublisher κ} (hmonitored : Monitored fs live file sub.context s s')
    (hkeeps : Keeps fs s s') (hall : MonitoredAll fs live file subs s' s'')
    (hne : ∀ sub' ∈ subs, sub'.context ≠ sub.context)
    (hseparate : SeparateOn fs file (sub :: subs) s) :
    MonitoredAll fs live file (sub :: subs) s s'' := by
  have hkept := hall.serves_of_separate fs hkeeps hne hseparate
  have hcoverage : ∀ i, coverage fs (s'.contexts i) = coverage fs (s.contexts i) := by
    intro i
    rw [coverage, coverage, hkeeps.discovery]
  constructor
  · exact hall.tracks
  · exact hkeeps.trans fs hall.keeps
  · intro i hi
    have hself := hmonitored.settings i (hi sub (List.mem_cons_self ..)).symm
    exact (hall.settings i fun sub' hsub' => hi sub' (List.mem_cons_of_mem _ hsub')).trans hself
  · intro i q hserves hcovers
    apply hall.serves i q
    · exact hmonitored.watches.serves i q hserves (.inr (hcovers sub (List.mem_cons_self ..)))
    · intro sub' hsub'
      rw [hkeeps.covers_eq]
      exact hcovers sub' (List.mem_cons_of_mem _ hsub')
  · intro sub' hsub'
    rcases List.mem_cons.mp hsub' with rfl | hsub'
    · refine ⟨?_, fun htimed q hq => hkept q hq (hmonitored.serves htimed q hq)⟩
      apply Recorded.of_settings fs hmonitored.recorded (hall.settings _ hne)
      intro q hq
      rw [hcoverage] at hq
      exact hkept q hq
    · have heach := hall.each sub' hsub'
      rw [Timed, hkeeps.discovery, hcoverage] at heach
      exact heach

/-- Subscriptions that cover no file together are monitored one after another. -/
theorem MonitoredAll.of_separate (hk : k.Lawful live file) (h : Tracks live file s)
    (subs : List Subscription)
    (hrecorded : ∀ sub ∈ subs, Recorded fs live file s sub.context)
    (hnodup : (subs.map (·.context)).Nodup) (hseparate : SeparateOn fs file subs s) :
    MonitoredAll fs live file subs s
      (subs.foldl (fun s sub => s.monitorSubscription k fs sub.context) s) := by
  induction subs generalizing s with
  | nil =>
      refine ⟨h, (Frame.refl s).keeps fs, fun _ _ => rfl, fun _ _ hserves _ => hserves, ?_⟩
      intro sub hsub
      exact absurd hsub List.not_mem_nil
  | cons sub subs ih =>
      obtain ⟨hsub, hrest⟩ := List.nodup_cons.mp hnodup
      have hne : ∀ sub' ∈ subs, sub'.context ≠ sub.context := by
        intro sub' hsub' heq
        exact hsub (List.mem_map.mpr ⟨sub', hsub', heq⟩)
      have hmonitored := Monitored.monitorSubscription fs hk h
        (hrecorded sub (List.mem_cons_self ..))
      have hkeeps := h.consistent.keeps_monitorSubscription (k := k) fs sub.context
      have hrecorded' : ∀ sub' ∈ subs, Recorded fs live file
          (s.monitorSubscription k fs sub.context) sub'.context :=
        fun sub' hsub' => hmonitored.recorded_of_separate fs hseparate hsub' (hne sub' hsub')
          (hrecorded sub' (List.mem_cons_of_mem _ hsub'))
      have hall := ih hmonitored.watches.tracks hrecorded' hrest (hseparate.tail fs hkeeps)
      exact .cons fs hmonitored hkeeps hall hne hseparate

end Contexts

end Osquery.EventPublishers.INotifyEventPublisher
