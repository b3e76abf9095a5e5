import Mathlib.Data.List.Nodup
import Osquery.EventPublishers.WatchMaps

/-!
# Runs of the inotify publisher

Subscriptions come and go, configurations take effect, watches are added and removed, and
events arrive, in any order and whatever the kernel and the file system answer. Every step
keeps the maps of descriptors and contexts in step with each other, so no lookup of an event
throws, and deleting subscriptions removes the watches of their contexts and no others.

## Implementation notes

The file system may be another one for every action, and the kernel may change between two
actions. Contexts that no subscription has yet have no watches.
-/

namespace Osquery.EventPublishers.INotifyEventPublisher

open Core Foundation

variable {κ : Type} (k : Inotify κ) (fs : WatchedFileSystem)

/-! ### Every operation -/

section Operations

variable {s : INotifyEventPublisher κ}

theorem Consistent.modifyContext (h : s.Consistent) (isc : ContextRef)
    (f : INotifySubscriptionContext → INotifySubscriptionContext)
    (hf : ∀ c, (f c).descriptor_paths_ = c.descriptor_paths_) :
    (s.modifyContext isc f).Consistent := by
  obtain ⟨o, hrep⟩ := s.consistent_iff.mp h
  apply (consistent_iff _).mpr
  exact ⟨o, hrep.modifyContext isc f hf⟩

theorem Consistent.watchPath (h : s.Consistent) (path : String) (isc : ContextRef)
    (mask : UInt32) (add_watch : Bool) : (s.watchPath k path isc mask add_watch).2.Consistent := by
  obtain ⟨o, hrep⟩ := s.consistent_iff.mp h
  apply (consistent_iff _).mpr
  by_cases hadded : add_watch = true ∧ (s.addedWatch k path mask).1 = -1
  · rw [watchPath_of_failed k hadded]
    exact ⟨o, hrep.withKernel _⟩
  · obtain ⟨-, hwatched⟩ := hrep.watchPath k path isc mask hadded
    exact ⟨_, hwatched.represents⟩

theorem Consistent.addMonitor (h : s.Consistent) (path : String) (isc : ContextRef)
    (mask : UInt32) (recursive add_watch : Bool) :
    (s.addMonitor k fs path isc mask recursive add_watch).2.Consistent := by
  have hadded := h.watchPath k path isc mask add_watch
  rw [INotifyEventPublisher.addMonitor]
  split
  · apply List.foldlRecOn
    · exact hadded
    · intro s hs child _
      exact hs.watchPath k _ isc mask true
  · exact hadded

theorem Consistent.removeMonitor (h : s.Consistent) (watch : Int) (force : Bool) :
    (s.removeMonitor k watch force false).2.Consistent := by
  obtain ⟨o, hrep⟩ := s.consistent_iff.mp h
  apply (consistent_iff _).mpr
  exact ⟨_, (hrep.removeMonitor k watch force).1⟩

theorem Consistent.needMonitoring (h : s.Consistent) (path : String) (isc : ContextRef) :
    (s.needMonitoring k fs path isc).Consistent := by
  have hread := h.modifyContext isc
    (fun c => { c with path_sc_time_ := c.path_sc_time_.insertIfNew path 0 }) fun _ => rfl
  rw [INotifyEventPublisher.needMonitoring]
  cases fs.st_ctime path with
  | none => exact hread
  | some st_ctime =>
      simp only
      split
      · split
        · exact (hread.addMonitor k fs path isc _ _ true).modifyContext isc _ fun _ => rfl
        · exact hread.addMonitor k fs path isc _ _ true
      · exact hread

theorem Consistent.monitorSubscription (h : s.Consistent) (sc : ContextRef) :
    (s.monitorSubscription k fs sc).Consistent := by
  rw [INotifyEventPublisher.monitorSubscription]
  apply List.foldlRecOn
  · exact h.modifyContext sc _ fun _ => rfl
  · intro s hs path _
    exact hs.needMonitoring k fs path sc

theorem Consistent.removeSubscriptions (h : s.Consistent) (subscriber : String) :
    (s.removeSubscriptions subscriber).Consistent := by
  rw [INotifyEventPublisher.removeSubscriptions]
  apply List.foldlRecOn
  · exact h
  · intro s hs sub _
    exact hs.modifyContext sub.context _ fun _ => rfl

theorem Consistent.addSubscription (h : s.Consistent) (subscription : Subscription) :
    (s.addSubscription subscription).2.Consistent := by
  rw [INotifyEventPublisher.addSubscription]
  split
  · exact h
  · split
    · exact h.modifyContext _ _ fun _ => rfl
    · exact h

theorem Consistent.unwatch (h : s.Consistent) (sub : Subscription) :
    (s.unwatch k sub).Consistent := by
  obtain ⟨o, hrep⟩ := s.consistent_iff.mp h
  apply (consistent_iff _).mpr
  exact ⟨_, (hrep.unwatch k sub).1⟩

theorem Consistent.deleteMarked (h : s.Consistent) : (s.deleteMarked k).Consistent := by
  rw [INotifyEventPublisher.deleteMarked]
  apply List.foldlRecOn
  · exact h
  · intro s hs sub _
    exact hs.unwatch k sub

theorem Consistent.configure (h : s.Consistent) (exclude_paths : List String) :
    (s.configure k fs exclude_paths).Consistent := by
  rw [INotifyEventPublisher.configure]
  split
  · exact h
  · apply List.foldlRecOn
    · exact h.deleteMarked k
    · intro s hs sub _
      exact hs.monitorSubscription k fs sub.context

theorem Consistent.shouldFire (h : s.Consistent) (sc : ContextRef) (ec : INotifyEventContext) :
    (s.shouldFire k fs sc ec).2.Consistent := by
  rw [INotifyEventPublisher.shouldFire]
  split
  · exact h
  · split
    · exact h
    · simp only
      split
      · exact h.addMonitor k fs _ sc _ true true
      · exact h

theorem Consistent.fire (h : s.Consistent) (running : String → Bool) (ec : INotifyEventContext) :
    (s.fire k fs running ec).2.Consistent := by
  rw [INotifyEventPublisher.fire]
  apply List.foldlRecOn (motive := fun fired : List Subscription × INotifyEventPublisher κ =>
    fired.2.Consistent)
  · exact h
  · intro fired hs sub _
    exact hs.shouldFire k fs sub.context ec

/-- The path of a descriptor that has a context is found. -/
theorem Consistent.createEventContextFrom (h : s.Consistent) (event : INotifyEvent) :
    ∃ ec, s.createEventContextFrom event = some ec ∧
      ∀ isc, s.descriptor_inosubctx_[event.wd]? = some isc → ec.isub_ctx = some isc := by
  rw [INotifyEventPublisher.createEventContextFrom]
  cases howner : s.descriptor_inosubctx_[event.wd]? with
  | none => exact ⟨_, rfl, fun isc hisc => absurd hisc (Option.some_ne_none isc).symm⟩
  | some isc =>
      have hpath := (h event.wd isc).mp howner
      rw [Std.ExtTreeMap.mem_iff_isSome_getElem?, Option.isSome_iff_exists] at hpath
      obtain ⟨path, hpath⟩ := hpath
      simp only [hpath]
      exact ⟨_, rfl, fun _ hisc => hisc⟩

theorem Consistent.handle (h : s.Consistent) (running : String → Bool) (event : INotifyEvent) :
    ∃ result, s.handle k fs running event = some result ∧ result.2.Consistent := by
  rw [INotifyEventPublisher.handle]
  split
  · exact ⟨_, rfl, h⟩
  · split
    · exact ⟨_, rfl, h.removeMonitor k event.wd false⟩
    · split
      · exact ⟨_, rfl, h.removeMonitor k event.wd true⟩
      · split
        · exact ⟨_, rfl, h.removeMonitor k event.wd false⟩
        · obtain ⟨ec, hec, -⟩ := h.createEventContextFrom event
          rw [hec]
          refine ⟨_, rfl, ?_⟩
          simp only
          split
          · exact h.fire k fs running ec
          · exact h

end Operations

/-! ### Deletions -/

/-- A context whose subscription is deleted. -/
def deletes (subs : List Subscription) (isc : ContextRef) : Prop :=
  ∃ sub ∈ subs, sub.context = isc

/-- What deleting subscriptions does to the records of watches and to the kernel. -/
structure Deletion (s s' : INotifyEventPublisher κ) (deleted : ContextRef → Prop) : Prop where
  owner : ∀ (wd : Int) isc, s'.descriptor_inosubctx_[wd]? = some isc ↔
    s.descriptor_inosubctx_[wd]? = some isc ∧ ¬ deleted isc
  held : ∀ isc (wd : Int) path, (s'.contexts isc).descriptor_paths_[wd]? = some path ↔
    (s.contexts isc).descriptor_paths_[wd]? = some path ∧ ¬ deleted isc
  kernel : ∃ watches : List Int, watches.Nodup ∧
    (∀ wd, wd ∈ watches ↔ ∃ isc, s.descriptor_inosubctx_[wd]? = some isc ∧ deleted isc) ∧
    s'.kernel = watches.foldl k.inotify_rm_watch s.kernel

theorem Deletion.congr {s s' : INotifyEventPublisher κ} {deleted deleted' : ContextRef → Prop}
    (h : Deletion k s s' deleted) (hsame : ∀ isc, deleted isc ↔ deleted' isc) :
    Deletion k s s' deleted' := by
  obtain rfl : deleted = deleted' := funext fun isc => propext (hsame isc)
  exact h

/-- Nothing is deleted. -/
theorem Deletion.refl (s : INotifyEventPublisher κ) : Deletion k s s fun _ => False := by
  refine ⟨fun wd isc => ?_, fun isc wd path => ?_, [], List.nodup_nil, fun wd => ?_, rfl⟩
  · simp
  · simp
  · simp

/-- A deletion after another one. -/
theorem Deletion.trans {s s' s'' : INotifyEventPublisher κ} {deleted deleted' : ContextRef → Prop}
    (h : Deletion k s s' deleted) (h' : Deletion k s' s'' deleted') :
    Deletion k s s'' fun isc => deleted isc ∨ deleted' isc := by
  obtain ⟨watches, hnodup, hmem, hkernel⟩ := h.kernel
  obtain ⟨watches', hnodup', hmem', hkernel'⟩ := h'.kernel
  constructor
  · intro wd isc
    rw [h'.owner, h.owner]
    tauto
  · intro isc wd path
    rw [h'.held, h.held]
    tauto
  · refine ⟨watches ++ watches', ?_, ?_, ?_⟩
    · apply List.nodup_append'.mpr
      refine ⟨hnodup, hnodup', ?_⟩
      intro wd hwd hwd'
      obtain ⟨isc, hisc, hdeleted⟩ := (hmem wd).mp hwd
      obtain ⟨isc', hisc', -⟩ := (hmem' wd).mp hwd'
      obtain ⟨hisc', hkept⟩ := (h.owner wd isc').mp hisc'
      obtain rfl := Option.some.inj (hisc.symm.trans hisc')
      exact hkept hdeleted
    · intro wd
      rw [List.mem_append, hmem, hmem']
      constructor
      · rintro (⟨isc, hisc, hdeleted⟩ | ⟨isc, hisc, hdeleted⟩)
        · exact ⟨isc, hisc, .inl hdeleted⟩
        · exact ⟨isc, ((h.owner wd isc).mp hisc).1, .inr hdeleted⟩
      · rintro ⟨isc, hisc, hdeleted⟩
        by_cases hfirst : deleted isc
        · exact .inl ⟨isc, hisc, hfirst⟩
        · exact .inr ⟨isc, (h.owner wd isc).mpr ⟨hisc, hfirst⟩, hdeleted.resolve_left hfirst⟩
    · rw [List.foldl_append, ← hkernel]
      exact hkernel'

/-- A subscription loses its watches. -/
theorem Consistent.deletion_unwatch {s : INotifyEventPublisher κ} (h : s.Consistent)
    (sub : Subscription) : Deletion k s (s.unwatch k sub) fun isc => isc = sub.context := by
  obtain ⟨o, hrep⟩ := s.consistent_iff.mp h
  obtain ⟨hrep', hkernel, -⟩ := hrep.unwatch k sub
  constructor
  · intro wd isc
    rw [hrep'.owner, Ownership.owner_abandon, hrep.owner]
    grind
  · intro isc wd path
    rw [hrep'.held, Ownership.held_abandon, hrep.held]
    grind
  · refine ⟨(s.contexts sub.context).descriptor_paths_.keys, Std.ExtTreeMap.nodup_keys, ?_, hkernel⟩
    intro wd
    rw [Std.ExtTreeMap.mem_keys, ← h wd sub.context]
    simp only [exists_eq_right]

/-- One subscription after another loses its watches. -/
theorem deletion_of_unwatch {s : INotifyEventPublisher κ} (h : s.Consistent)
    (subs : List Subscription) : Deletion k s (subs.foldl (unwatch k) s) (deletes subs) := by
  induction subs generalizing s with
  | nil =>
      apply (Deletion.refl k s).congr k
      intro isc
      refine iff_of_false not_false ?_
      rintro ⟨sub, hsub, -⟩
      exact List.not_mem_nil hsub
  | cons sub subs ih =>
      have hboth := (h.deletion_unwatch k sub).trans k (ih (h.unwatch k sub))
      apply hboth.congr k
      intro isc
      simp only [deletes, List.mem_cons, exists_eq_or_imp, @eq_comm _ isc]

/-! ### Runs -/

inductive Action (κ : Type)
  | kernelChange (kernel : κ)
  | addMonitor (fs : WatchedFileSystem) (path : String) (isc : ContextRef) (mask : UInt32)
      (recursive add_watch : Bool)
  | removeMonitor (watch : Int) (force : Bool)
  | configure (fs : WatchedFileSystem) (exclude_paths : List String)
  | addSubscription (subscription : Subscription)
  | removeSubscriptions (subscriber : String)
  | event (fs : WatchedFileSystem) (running : String → Bool) (event : INotifyEvent)

/-- There is no next state when a lookup throws. -/
def step (s : INotifyEventPublisher κ) : Action κ → Option (INotifyEventPublisher κ)
  | .kernelChange kernel => some (s.withKernel kernel)
  | .addMonitor fs path isc mask recursive add_watch =>
      some (s.addMonitor k fs path isc mask recursive add_watch).2
  | .removeMonitor watch force => some (s.removeMonitor k watch force false).2
  | .configure fs exclude_paths => some (s.configure k fs exclude_paths)
  | .addSubscription subscription => some (s.addSubscription subscription).2
  | .removeSubscriptions subscriber => some (s.removeSubscriptions subscriber)
  | .event fs running event => (s.handle k fs running event).map (·.2)

/-- A publisher that watches nothing yet. -/
structure Fresh (s : INotifyEventPublisher κ) : Prop where
  descriptors : s.descriptor_inosubctx_ = ∅
  paths : ∀ isc, (s.contexts isc).descriptor_paths_ = ∅

theorem Fresh.consistent {s : INotifyEventPublisher κ} (h : s.Fresh) : s.Consistent := by
  intro wd isc
  rw [h.descriptors, h.paths]
  simp

theorem Consistent.step {s : INotifyEventPublisher κ} (action : Action κ) (h : s.Consistent) :
    ∃ s', INotifyEventPublisher.step k s action = some s' ∧ s'.Consistent := by
  cases action with
  | kernelChange kernel => exact ⟨_, rfl, h⟩
  | addMonitor fs path isc mask recursive add_watch =>
      exact ⟨_, rfl, h.addMonitor k fs path isc mask recursive add_watch⟩
  | removeMonitor watch force => exact ⟨_, rfl, h.removeMonitor k watch force⟩
  | configure fs exclude_paths => exact ⟨_, rfl, h.configure k fs exclude_paths⟩
  | addSubscription subscription => exact ⟨_, rfl, h.addSubscription subscription⟩
  | removeSubscriptions subscriber => exact ⟨_, rfl, h.removeSubscriptions subscriber⟩
  | event fs running event =>
      obtain ⟨result, hhandle, hconsistent⟩ := h.handle k fs running event
      refine ⟨result.2, ?_, hconsistent⟩
      rw [INotifyEventPublisher.step, hhandle]
      rfl

/-- No lookup of a run throws, and in the state that it reaches the maps agree, the context of
every event is found, and deleting the marked subscriptions removes exactly the descriptors of
their contexts. -/
theorem maps_agree {s₀ : INotifyEventPublisher κ} (hfresh : s₀.Fresh) (actions : List (Action κ)) :
    ∃ s, Simulation.run (step k) s₀ actions = some s ∧
      (∀ (wd : Int) isc, s.descriptor_inosubctx_[wd]? = some isc ↔
        wd ∈ (s.contexts isc).descriptor_paths_) ∧
      (∀ event, ∃ ec, s.createEventContextFrom event = some ec ∧
        ∀ isc, s.descriptor_inosubctx_[event.wd]? = some isc → ec.isub_ctx = some isc) ∧
      Deletion k s (s.deleteMarked k) (deletes (s.subscriptions_.filter s.isMarked)) := by
  obtain ⟨s, hrun, hconsistent⟩ := Simulation.run_of_total
    (fun _ action h => Consistent.step k action h) actions hfresh.consistent
  refine ⟨s, hrun, hconsistent, ?_, ?_⟩
  · exact hconsistent.createEventContextFrom
  · have hdeleted := deletion_of_unwatch k (s := { s with
      subscriptions_ := s.subscriptions_.filter fun sub => !s.isMarked sub }) hconsistent
        (s.subscriptions_.filter s.isMarked)
    exact ⟨hdeleted.owner, hdeleted.held, hdeleted.kernel⟩

/-- The file of a path is the length of the path, and its descriptor the number after it. -/
def lengthKernel : Inotify (List ℕ) where
  inotify_add_watch kernel path _ := (path.length + 1, path.length :: kernel)
  inotify_rm_watch kernel watch := kernel.filter fun file => (file + 1 : Int) ≠ watch

def flatFileSystem : WatchedFileSystem where
  toFileSystem := PathSet.noFiles
  st_ctime _ := some 7
  resolveFilePattern pattern := [pattern]
  listDirectoriesInDirectory _ := []
  filename path := path
  parent_path path := path

/-- A publisher with contexts for two categories, which want the same path. -/
def sharedPublisher : INotifyEventPublisher (List ℕ) where
  kernel := []
  inotify_handle_ := 3
  contexts isc :=
    { path := "/d/", opath := "/d/", category := if isc = 0 then "system" else "home" }

def sharedActions : List (Action (List ℕ)) :=
  [.addSubscription ⟨"file_events", 0⟩, .addSubscription ⟨"yara_events", 1⟩,
    .configure flatFileSystem [], .removeSubscriptions "file_events",
    .configure flatFileSystem []]

theorem maps_agree_shared : sharedPublisher.Fresh ∧
    ∃ s, Simulation.run (step lengthKernel) sharedPublisher sharedActions = some s ∧
      ∀ event, s.createEventContextFrom event ≠ none := by
  have hfresh : sharedPublisher.Fresh := ⟨rfl, fun _ => rfl⟩
  obtain ⟨s, hrun, -, hlookup, -⟩ := maps_agree lengthKernel hfresh sharedActions
  refine ⟨hfresh, s, hrun, ?_⟩
  intro event
  obtain ⟨ec, hec, -⟩ := hlookup event
  exact hec ▸ Option.some_ne_none ec

end Osquery.EventPublishers.INotifyEventPublisher
