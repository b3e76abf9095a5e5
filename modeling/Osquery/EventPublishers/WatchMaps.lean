import Osquery.EventPublishers.Inotify
import Osquery.Foundation.Simulation

/-!
# The maps of the inotify publisher

The contexts of the descriptors and the descriptors of the contexts are one relation that is
recorded from both ends: every descriptor has one owner, which holds its path. Adding a watch
assigns a descriptor, removing one releases it, and deleting a subscription makes its context
give up what it holds. So the maps stay in step with each other, whatever the kernel and the
file system answer.

## Implementation notes

Removing a watch without its path is what deleting a subscription does before it clears the
paths of the context; no event does it.
-/

namespace Osquery.EventPublishers

open Core Foundation

/-- A context without its watches. -/
def INotifySubscriptionContext.settings (c : INotifySubscriptionContext) :
    INotifySubscriptionContext :=
  { c with descriptor_paths_ := ∅ }

theorem INotifySubscriptionContext.eq_of_settings {c c' : INotifySubscriptionContext}
    (h : c'.settings = c.settings) :
    c'.path = c.path ∧ c'.recursive = c.recursive ∧
      c'.mark_for_deletion = c.mark_for_deletion ∧ c'.path_sc_time_ = c.path_sc_time_ := by
  simp only [settings, mk.injEq] at h
  obtain ⟨hpath, -, -, hrecursive, -, hmark, -, -, htimes⟩ := h
  exact ⟨hpath, hrecursive, hmark, htimes⟩

namespace INotifyEventPublisher

variable {κ : Type} (k : Inotify κ) (fs : WatchedFileSystem)

/-- The maps record who owns a descriptor. -/
structure Represents (s : INotifyEventPublisher κ) (o : Ownership Int ContextRef String) :
    Prop where
  owner : ∀ d, s.descriptor_inosubctx_[d]? = o.owner d
  held : ∀ i d, (s.contexts i).descriptor_paths_[d]? = o.held i d

/-- What a step on watches leaves alone. -/
structure Frame (s s' : INotifyEventPublisher κ) : Prop where
  subscriptions : s'.subscriptions_ = s.subscriptions_
  handle : s'.inotify_handle_ = s.inotify_handle_
  exclude : s'.exclude_paths_ = s.exclude_paths_
  settings : ∀ i, (s'.contexts i).settings = (s.contexts i).settings

theorem Frame.refl (s : INotifyEventPublisher κ) : Frame s s :=
  ⟨rfl, rfl, rfl, fun _ => rfl⟩

theorem Frame.trans {s s' s'' : INotifyEventPublisher κ} (h : Frame s s') (h' : Frame s' s'') :
    Frame s s'' :=
  ⟨h'.subscriptions.trans h.subscriptions, h'.handle.trans h.handle, h'.exclude.trans h.exclude,
    fun i => (h'.settings i).trans (h.settings i)⟩

theorem getElem?_erase_watch {β : Type} (t : Std.ExtTreeMap Int β) (watch d : Int) :
    (t.erase watch)[d]? = if d = watch then none else t[d]? := by
  rw [Std.ExtTreeMap.getElem?_erase]
  simp only [compare_eq_iff_eq, @eq_comm _ watch d]

theorem getElem?_insert_watch {β : Type} (t : Std.ExtTreeMap Int β) (watch d : Int) (v : β) :
    (t.insert watch v)[d]? = if d = watch then some v else t[d]? := by
  rw [Std.ExtTreeMap.getElem?_insert]
  simp only [compare_eq_iff_eq, @eq_comm _ watch d]

/-! ### Contexts -/

@[simp] theorem contexts_modifyContext_self (s : INotifyEventPublisher κ) (isc : ContextRef)
    (f : INotifySubscriptionContext → INotifySubscriptionContext) :
    (s.modifyContext isc f).contexts isc = f (s.contexts isc) :=
  Function.update_self ..

theorem contexts_modifyContext_of_ne (s : INotifyEventPublisher κ) {isc i : ContextRef}
    (h : i ≠ isc) (f : INotifySubscriptionContext → INotifySubscriptionContext) :
    (s.modifyContext isc f).contexts i = s.contexts i :=
  Function.update_of_ne h ..

theorem frame_modifyContext (s : INotifyEventPublisher κ) (isc : ContextRef)
    (f : INotifySubscriptionContext → INotifySubscriptionContext)
    (hf : ∀ c, (f c).settings = c.settings) : Frame s (s.modifyContext isc f) := by
  refine ⟨rfl, rfl, rfl, ?_⟩
  intro i
  by_cases h : i = isc
  · subst h
    rw [contexts_modifyContext_self, hf]
  · rw [contexts_modifyContext_of_ne s h]

/-- A change of a context that leaves its watches alone changes no record. -/
theorem Represents.modifyContext {s : INotifyEventPublisher κ} {o : Ownership Int ContextRef String}
    (h : s.Represents o) (isc : ContextRef)
    (f : INotifySubscriptionContext → INotifySubscriptionContext)
    (hf : ∀ c, (f c).descriptor_paths_ = c.descriptor_paths_) :
    (s.modifyContext isc f).Represents o := by
  refine ⟨h.owner, ?_⟩
  intro i d
  rw [← h.held i d]
  by_cases hi : i = isc
  · subst hi
    rw [contexts_modifyContext_self, hf]
  · rw [contexts_modifyContext_of_ne s hi]

/-- The sanity check finds the path of a descriptor that has an owner, and changes no
context. -/
theorem contexts_forgetPath {s : INotifyEventPublisher κ} {isc : ContextRef} {watch : Int}
    (h : (s.contexts isc).descriptor_paths_[watch]? ≠ none) :
    (s.forgetPath isc watch).contexts = s.contexts := by
  rw [forgetPath]
  split
  · have hsame : (s.contexts isc).descriptor_paths_.insertIfNew watch "" =
        (s.contexts isc).descriptor_paths_ := by
      ext1 d
      rw [Std.ExtTreeMap.getElem?_insertIfNew, if_neg]
      rintro ⟨-, hnew⟩
      rw [Std.ExtTreeMap.mem_iff_isSome_getElem?, Option.isSome_iff_ne_none] at hnew
      exact hnew h
    simp only [modifyContext, hsame]
    exact Function.update_eq_self ..
  · rfl

theorem forgetPath_eq (s : INotifyEventPublisher κ) (isc : ContextRef) (watch : Int) :
    (s.forgetPath isc watch).descriptor_inosubctx_ = s.descriptor_inosubctx_ ∧
      (s.forgetPath isc watch).kernel = s.kernel ∧ Frame s (s.forgetPath isc watch) := by
  rw [forgetPath]
  split
  · refine ⟨rfl, rfl, rfl, rfl, rfl, ?_⟩
    exact (s.frame_modifyContext isc (fun c =>
      { c with descriptor_paths_ := c.descriptor_paths_.insertIfNew watch "" })
        fun _ => rfl).settings
  · exact ⟨rfl, rfl, Frame.refl s⟩

/-! ### Watches -/

section Steps

variable {s : INotifyEventPublisher κ} {o : Ownership Int ContextRef String}

theorem frame_takeWatch (s : INotifyEventPublisher κ) (watch : Int) :
    Frame s (s.takeWatch watch) ∧ (s.takeWatch watch).kernel = s.kernel := by
  rw [takeWatch]
  split
  · exact ⟨Frame.refl s, rfl⟩
  · next ino_sc _ =>
      obtain ⟨-, hkernel, hframe⟩ := s.forgetPath_eq ino_sc watch
      have hmodify := (s.forgetPath ino_sc watch).frame_modifyContext ino_sc
        (fun c => { c with descriptor_paths_ := c.descriptor_paths_.erase watch }) fun _ => rfl
      have hboth := hframe.trans hmodify
      exact ⟨⟨hboth.subscriptions, hboth.handle, hboth.exclude, hboth.settings⟩, hkernel⟩

theorem Represents.contexts_forgetPath (h : s.Represents o) {watch : Int} {isc : ContextRef}
    (howner : s.descriptor_inosubctx_[watch]? = some isc) :
    (s.forgetPath isc watch).contexts = s.contexts := by
  apply INotifyEventPublisher.contexts_forgetPath
  rw [h.held]
  rw [h.owner] at howner
  exact (o.consistent watch isc).mp howner

/-- A descriptor that both maps lose has no owner any more. -/
theorem Represents.release (h : s.Represents o) {watch : Int} {isc : ContextRef}
    (howner : s.descriptor_inosubctx_[watch]? = some isc) {s' : INotifyEventPublisher κ}
    (hmap : s'.descriptor_inosubctx_ = s.descriptor_inosubctx_.erase watch)
    (hself : (s'.contexts isc).descriptor_paths_ =
      (s.contexts isc).descriptor_paths_.erase watch)
    (hother : ∀ i, i ≠ isc → s'.contexts i = s.contexts i) :
    s'.Represents (o.release watch) := by
  rw [h.owner] at howner
  constructor
  · intro d
    rw [hmap, getElem?_erase_watch, Ownership.owner_release, h.owner]
  · intro i d
    rw [Ownership.held_release]
    by_cases hi : i = isc
    · subst hi
      rw [hself, getElem?_erase_watch, h.held]
    · have hnone : o.held i watch = none := by
        apply o.held_eq_none
        rw [howner]
        exact fun heq => hi (Option.some.inj heq).symm
      rw [hother i hi, h.held]
      split
      · next hd => rw [hd, hnone]
      · rfl

theorem Represents.takeWatch (h : s.Represents o) (watch : Int) :
    (s.takeWatch watch).Represents (o.release watch) := by
  rw [INotifyEventPublisher.takeWatch]
  cases howner : s.descriptor_inosubctx_[watch]? with
  | none =>
      rw [h.owner] at howner
      rwa [o.release_eq_self howner]
  | some ino_sc =>
      have hcontexts := h.contexts_forgetPath howner
      have hmap := (s.forgetPath_eq ino_sc watch).1
      apply h.release howner
      · exact congrArg (·.erase watch) hmap
      · simp only [contexts_modifyContext_self, hcontexts]
      · intro i hi
        simp only [contexts_modifyContext_of_ne _ hi, hcontexts]

theorem frame_giveWatch (s : INotifyEventPublisher κ) (watch : Int) (isc : ContextRef)
    (path : String) : Frame s (s.giveWatch watch isc path) :=
  ⟨rfl, rfl, rfl, (s.frame_modifyContext isc (fun c =>
    { c with descriptor_paths_ := c.descriptor_paths_.insert watch path }) fun _ => rfl).settings⟩

theorem Represents.giveWatch {watch : Int} (h : s.Represents (o.release watch))
    (isc : ContextRef) (path : String) :
    (s.giveWatch watch isc path).Represents (o.assign watch isc path) := by
  constructor
  · intro d
    have howner := h.owner d
    rw [Ownership.owner_release] at howner
    rw [INotifyEventPublisher.giveWatch, getElem?_insert_watch, howner, Ownership.owner_assign]
    split <;> rfl
  · intro i d
    have hheld := h.held i d
    rw [Ownership.held_release] at hheld
    rw [Ownership.held_assign]
    by_cases hi : i = isc
    · subst hi
      simp only [INotifyEventPublisher.giveWatch, contexts_modifyContext_self,
        getElem?_insert_watch, hheld]
      split <;> rfl
    · simp only [INotifyEventPublisher.giveWatch, contexts_modifyContext_of_ne _ hi, hheld,
        if_neg hi]

end Steps

variable {s : INotifyEventPublisher κ} {o : Ownership Int ContextRef String}

theorem Represents.withKernel (h : s.Represents o) (kernel : κ) :
    (s.withKernel kernel).Represents o :=
  ⟨h.owner, h.held⟩

theorem frame_withKernel (s : INotifyEventPublisher κ) (kernel : κ) :
    Frame s (s.withKernel kernel) :=
  ⟨rfl, rfl, rfl, fun _ => rfl⟩

theorem Represents.notePath (h : s.Represents o) (path : String) (watch : Int) :
    (s.notePath path watch).Represents o := by
  rw [INotifyEventPublisher.notePath]
  split
  · exact ⟨h.owner, h.held⟩
  · exact h

theorem frame_notePath (s : INotifyEventPublisher κ) (path : String) (watch : Int) :
    Frame s (s.notePath path watch) ∧ (s.notePath path watch).kernel = s.kernel := by
  rw [notePath]
  split
  · exact ⟨⟨rfl, rfl, rfl, fun _ => rfl⟩, rfl⟩
  · exact ⟨Frame.refl s, rfl⟩

theorem watchPath_of_failed {path : String} {isc : ContextRef} {mask : UInt32} {add_watch : Bool}
    (hfailed : add_watch = true ∧ (s.addedWatch k path mask).1 = -1) :
    s.watchPath k path isc mask add_watch = (false, s.withKernel (s.addedWatch k path mask).2) :=
  if_pos hfailed

/-- What adding a watch does to the owners, the kernel and everything else. -/
structure Watched (s s' : INotifyEventPublisher κ) (o : Ownership Int ContextRef String)
    (added : Int × κ) (isc : ContextRef) (path : String) : Prop where
  represents : s'.Represents (o.assign added.1 isc path)
  kernel : s'.kernel = added.2
  frame : Frame s s'

/-- A path that is watched takes its descriptor from the context that it had. -/
theorem Represents.watchPath (h : s.Represents o) (path : String) (isc : ContextRef)
    (mask : UInt32) {add_watch : Bool}
    (hadded : ¬ (add_watch = true ∧ (s.addedWatch k path mask).1 = -1)) :
    (s.watchPath k path isc mask add_watch).1 = true ∧
      Watched s (s.watchPath k path isc mask add_watch).2 o (s.addedWatch k path mask) isc path := by
  rw [INotifyEventPublisher.watchPath, if_neg hadded]
  have hgiven := ((h.withKernel (s.addedWatch k path mask).2).takeWatch
    (s.addedWatch k path mask).1).giveWatch isc path
  obtain ⟨htaken, hkernel⟩ :=
    (s.withKernel (s.addedWatch k path mask).2).frame_takeWatch (s.addedWatch k path mask).1
  obtain ⟨hnoted, hkernel'⟩ := frame_notePath
    (((s.withKernel (s.addedWatch k path mask).2).takeWatch
      (s.addedWatch k path mask).1).giveWatch (s.addedWatch k path mask).1 isc path)
        path (s.addedWatch k path mask).1
  exact ⟨rfl, hgiven.notePath path _, hkernel'.trans hkernel,
    (((s.frame_withKernel _).trans htaken).trans (frame_giveWatch _ _ isc path)).trans hnoted⟩

/-! ### Watches that are removed -/

/-- Removing a watch releases its descriptor, if it has an owner. -/
theorem Represents.removeMonitor (h : s.Represents o) (watch : Int) (force : Bool) :
    (s.removeMonitor k watch force false).2.Represents (o.release watch) ∧
      Frame s (s.removeMonitor k watch force false).2 := by
  rw [INotifyEventPublisher.removeMonitor]
  cases howner : s.descriptor_inosubctx_[watch]? with
  | none =>
      rw [h.owner] at howner
      rw [o.release_eq_self howner]
      exact ⟨h, Frame.refl s⟩
  | some isc =>
      have hheld : (s.contexts isc).descriptor_paths_[watch]? ≠ none := by
        rw [h.held]
        rw [h.owner] at howner
        exact (o.consistent watch isc).mp howner
      have hcontexts := INotifyEventPublisher.contexts_forgetPath
        (s := { s with descriptor_inosubctx_ := s.descriptor_inosubctx_.erase watch }) hheld
      obtain ⟨hmap, -, hframe⟩ := forgetPath_eq
        { s with descriptor_inosubctx_ := s.descriptor_inosubctx_.erase watch } isc watch
      have hmodify := frame_modifyContext (forgetPath
        { s with descriptor_inosubctx_ := s.descriptor_inosubctx_.erase watch } isc watch) isc
          (fun c => { c with descriptor_paths_ := c.descriptor_paths_.erase watch }) fun _ => rfl
      have hboth := hframe.trans hmodify
      have hreleased : ((forgetPath
          { s with descriptor_inosubctx_ := s.descriptor_inosubctx_.erase watch } isc
            watch).modifyContext isc fun c =>
              { c with descriptor_paths_ := c.descriptor_paths_.erase watch }).Represents
                (o.release watch) := by
        apply h.release howner
        · exact hmap
        · simp only [contexts_modifyContext_self, hcontexts]
        · intro i hi
          simp only [contexts_modifyContext_of_ne _ hi, hcontexts]
      cases force with
      | false =>
          exact ⟨hreleased, hboth.subscriptions, hboth.handle, hboth.exclude, hboth.settings⟩
      | true =>
          exact ⟨hreleased.withKernel _, hboth.subscriptions, hboth.handle, hboth.exclude,
            hboth.settings⟩

/-- Removing a watch without its path, which the context keeps. -/
theorem removeMonitor_batch {watch : Int} {isc : ContextRef}
    (howner : s.descriptor_inosubctx_[watch]? = some isc)
    (hheld : (s.contexts isc).descriptor_paths_[watch]? ≠ none) :
    (s.removeMonitor k watch true true).2.contexts = s.contexts ∧
      (s.removeMonitor k watch true true).2.descriptor_inosubctx_ =
        s.descriptor_inosubctx_.erase watch ∧
      (s.removeMonitor k watch true true).2.kernel = k.inotify_rm_watch s.kernel watch ∧
      Frame s (s.removeMonitor k watch true true).2 := by
  have hcontexts := contexts_forgetPath
    (s := { s with descriptor_inosubctx_ := s.descriptor_inosubctx_.erase watch }) hheld
  obtain ⟨hmap, hkernel, hframe⟩ := forgetPath_eq
    { s with descriptor_inosubctx_ := s.descriptor_inosubctx_.erase watch } isc watch
  simp only [removeMonitor, howner, if_true]
  refine ⟨hcontexts, hmap, ?_, ?_⟩
  · exact congrArg (k.inotify_rm_watch · watch) hkernel
  · exact ⟨hframe.subscriptions, hframe.handle, hframe.exclude, hframe.settings⟩

/-- The watches of a context are removed one after another. -/
theorem removeMonitors_batch {isc : ContextRef} {watches : List Int} (hnodup : watches.Nodup)
    (howner : ∀ w ∈ watches, s.descriptor_inosubctx_[w]? = some isc)
    (hheld : ∀ w ∈ watches, (s.contexts isc).descriptor_paths_[w]? ≠ none) :
    let s' := watches.foldl (fun s watch => (s.removeMonitor k watch true true).2) s
    s'.contexts = s.contexts ∧
      (∀ d, s'.descriptor_inosubctx_[d]? =
        if d ∈ watches then none else s.descriptor_inosubctx_[d]?) ∧
      s'.kernel = watches.foldl k.inotify_rm_watch s.kernel ∧ Frame s s' := by
  induction watches generalizing s with
  | nil => exact ⟨rfl, fun d => by simp, rfl, Frame.refl s⟩
  | cons watch watches ih =>
      obtain ⟨hwatch, hrest⟩ := List.nodup_cons.mp hnodup
      obtain ⟨hcontexts, hmap, hkernel, hframe⟩ := removeMonitor_batch k
        (howner watch (List.mem_cons_self ..)) (hheld watch (List.mem_cons_self ..))
      have howner' : ∀ w ∈ watches,
          (s.removeMonitor k watch true true).2.descriptor_inosubctx_[w]? = some isc := by
        intro w hw
        have hne : w ≠ watch := fun heq => hwatch (heq ▸ hw)
        rw [hmap, getElem?_erase_watch, if_neg hne]
        exact howner w (List.mem_cons_of_mem _ hw)
      have hheld' : ∀ w ∈ watches, ((s.removeMonitor k watch true true).2.contexts
          isc).descriptor_paths_[w]? ≠ none := by
        intro w hw
        rw [hcontexts]
        exact hheld w (List.mem_cons_of_mem _ hw)
      obtain ⟨hcontexts', hmap', hkernel', hframe'⟩ := ih hrest howner' hheld'
      refine ⟨hcontexts'.trans hcontexts, ?_, ?_, hframe.trans hframe'⟩
      · intro d
        rw [List.foldl_cons, hmap', hmap, getElem?_erase_watch]
        grind
      · rw [List.foldl_cons, List.foldl_cons, ← hkernel]
        exact hkernel'

/-- Deleting a subscription, its context gives up what it holds. -/
theorem Represents.unwatch (h : s.Represents o) (sub : Subscription) :
    (s.unwatch k sub).Represents (o.abandon sub.context) ∧
      (s.unwatch k sub).kernel = (s.contexts sub.context).descriptor_paths_.keys.foldl
        k.inotify_rm_watch s.kernel ∧
      Frame s (s.unwatch k sub) := by
  have hmem : ∀ w ∈ (s.contexts sub.context).descriptor_paths_.keys,
      (s.contexts sub.context).descriptor_paths_[w]? ≠ none := by
    intro w hw
    rw [Std.ExtTreeMap.mem_keys, Std.ExtTreeMap.mem_iff_isSome_getElem?,
      Option.isSome_iff_ne_none] at hw
    exact hw
  have howner : ∀ w ∈ (s.contexts sub.context).descriptor_paths_.keys,
      s.descriptor_inosubctx_[w]? = some sub.context := by
    intro w hw
    rw [h.owner, o.consistent, ← h.held]
    exact hmem w hw
  obtain ⟨hcontexts, hmap, hkernel, hframe⟩ :=
    removeMonitors_batch k Std.ExtTreeMap.nodup_keys howner hmem
  rw [INotifyEventPublisher.unwatch]
  refine ⟨⟨?_, ?_⟩, hkernel, hframe.trans (frame_modifyContext _ _ _ fun _ => rfl)⟩
  · intro d
    apply (hmap d).trans
    rw [Ownership.owner_abandon, h.owner]
    congr 1
    rw [eq_iff_iff, o.consistent, ← h.held, Std.ExtTreeMap.mem_keys,
      Std.ExtTreeMap.mem_iff_isSome_getElem?, Option.isSome_iff_ne_none]
  · intro i d
    rw [Ownership.held_abandon]
    by_cases hi : i = sub.context
    · subst hi
      rw [if_pos rfl, contexts_modifyContext_self, Std.ExtTreeMap.getElem?_empty]
    · rw [if_neg hi, contexts_modifyContext_of_ne _ hi, hcontexts, h.held]

/-! ### Every step -/

/-- The maps are in step with each other. -/
def Consistent (s : INotifyEventPublisher κ) : Prop :=
  ∀ wd isc, s.descriptor_inosubctx_[wd]? = some isc ↔ wd ∈ (s.contexts isc).descriptor_paths_

theorem consistent_iff (s : INotifyEventPublisher κ) : s.Consistent ↔ ∃ o, s.Represents o := by
  constructor
  · intro h
    let o : Ownership Int ContextRef String :=
      { owner := fun d => s.descriptor_inosubctx_[d]?
        held := fun i d => (s.contexts i).descriptor_paths_[d]?
        consistent := fun d i => by
          rw [h d i, Std.ExtTreeMap.mem_iff_isSome_getElem?, Option.isSome_iff_ne_none] }
    exact ⟨o, fun _ => rfl, fun _ _ => rfl⟩
  · rintro ⟨o, howner, hheld⟩ wd isc
    rw [howner, o.consistent, Std.ExtTreeMap.mem_iff_isSome_getElem?, Option.isSome_iff_ne_none,
      hheld]

end INotifyEventPublisher

end Osquery.EventPublishers
