import Osquery.EventPublishers.WatchServing

/-!
# Configurations one after another

Between configurations subscriptions are added, marked and added again. As long as no two live
subscriptions of a configuration cover a file together, each of them is served on all that it
covers after it, and events there fire. Two that do are not both served, and the one that lost
its descriptor does not get it back.

## Implementation notes

Paths with a status change time of zero are left out, and so are contexts that recorded a time
before they are added.
-/

namespace Osquery.EventPublishers.INotifyEventPublisher

open Core Foundation

variable {κ φ : Type} {k : Inotify κ} (fs : WatchedFileSystem) {live : κ → φ → Option Int}
  {file : String → φ} {s : INotifyEventPublisher κ}

def liveSubscriptions (s : INotifyEventPublisher κ) : List Subscription :=
  s.subscriptions_.filter fun sub => !s.isMarked sub

/-- Every live subscription is served on all that it covers. -/
def ServesAll (live : κ → φ → Option Int) (file : String → φ) (s : INotifyEventPublisher κ) :
    Prop :=
  ∀ sub ∈ s.liveSubscriptions, ∀ q ∈ coverage fs (s.contexts sub.context),
    Serves live file s sub.context q

/-- No two live subscriptions cover a file together. -/
def Separate (file : String → φ) (s : INotifyEventPublisher κ) : Prop :=
  SeparateOn fs file s.liveSubscriptions s

def TimedAll (s : INotifyEventPublisher κ) : Prop :=
  ∀ sub ∈ s.liveSubscriptions, Timed fs (s.contexts sub.context)

/-- What holds between configurations. -/
structure Sound (live : κ → φ → Option Int) (file : String → φ) (s : INotifyEventPublisher κ) :
    Prop where
  handle : s.inotify_handle_ ≠ -1
  tracks : Tracks live file s
  nodup : (s.subscriptions_.map (·.context)).Nodup
  recorded : ∀ sub ∈ s.subscriptions_, Recorded fs live file s sub.context

/-! ### Deletions -/

theorem Consistent.frame_unwatches (h : s.Consistent) (subs : List Subscription) :
    Frame s (subs.foldl (INotifyEventPublisher.unwatch k) s) := by
  apply And.right
  apply List.foldlRecOn (motive := fun s' : INotifyEventPublisher κ =>
    s'.Consistent ∧ Frame s s')
  · exact ⟨h, Frame.refl s⟩
  · rintro s' ⟨hs', hframe⟩ sub -
    obtain ⟨o, hrep⟩ := s'.consistent_iff.mp hs'
    obtain ⟨-, -, hframe'⟩ := hrep.unwatch k sub
    exact ⟨hs'.unwatch k sub, hframe.trans hframe'⟩

/-- Deleting subscriptions leaves the watches of other contexts as they were. -/
theorem Tracks.deletion (hk : k.Lawful live file) (h : Tracks live file s)
    {s' : INotifyEventPublisher κ} {deleted : ContextRef → Prop} (hconsistent : s'.Consistent)
    (hdeletion : Deletion k s s' deleted) :
    Tracks live file s' ∧
      ∀ i q, ¬ deleted i → Serves live file s i q → Serves live file s' i q := by
  obtain ⟨watches, -, hmem, hkernel⟩ := hdeletion.kernel
  have hlive : ∀ f (wd : Int) i, live s.kernel f = some wd →
      s.descriptor_inosubctx_[wd]? = some i → ¬ deleted i → live s'.kernel f = some wd := by
    intro f wd i hf howner hi
    rw [hkernel, hk.live_removes watches s.kernel, hf]
    intro d hd hfd
    obtain rfl := Option.some.inj (hf.symm.trans hfd)
    obtain ⟨j, hj, hdeleted⟩ := (hmem wd).mp hd
    obtain rfl := Option.some.inj (howner.symm.trans hj)
    exact hi hdeleted
  refine ⟨⟨hconsistent, ?_⟩, ?_⟩
  · intro i wd path hpath
    obtain ⟨hheld, hi⟩ := (hdeletion.held i wd path).mp hpath
    apply hlive _ wd i (h.live i wd path hheld) _ hi
    rw [h.consistent, Std.ExtTreeMap.mem_iff_isSome_getElem?, hheld]
    rfl
  · rintro i q hi ⟨wd, hq, howner⟩
    exact ⟨wd, hlive _ wd i hq howner hi, (hdeletion.owner wd i).mpr ⟨howner, hi⟩⟩

/-- The state in which the live subscriptions are monitored. -/
def cleared (k : Inotify κ) (s : INotifyEventPublisher κ) (exclude_paths : List String) :
    INotifyEventPublisher κ :=
  (s.deleteMarked k).buildExcludePathsSet fs exclude_paths

theorem configure_eq (h : s.inotify_handle_ ≠ -1) (exclude_paths : List String) :
    s.configure k fs exclude_paths = (s.cleared fs k exclude_paths).subscriptions_.foldl
      (fun s sub => s.monitorSubscription k fs sub.context) (s.cleared fs k exclude_paths) :=
  if_neg h

theorem Consistent.frame_cleared (h : s.Consistent) (exclude_paths : List String) :
    (s.cleared fs k exclude_paths).subscriptions_ = s.liveSubscriptions ∧
      (s.cleared fs k exclude_paths).inotify_handle_ = s.inotify_handle_ ∧
      ∀ i, ((s.cleared fs k exclude_paths).contexts i).settings = (s.contexts i).settings := by
  have hframe := Consistent.frame_unwatches (k := k)
    (s := { s with subscriptions_ := s.liveSubscriptions }) h (s.subscriptions_.filter s.isMarked)
  exact ⟨hframe.subscriptions, hframe.handle, hframe.settings⟩

/-! ### Configurations -/

/-- A configuration keeps the live subscriptions with what they cover. -/
theorem Consistent.keeps_configure (h : s.Consistent) (hhandle : s.inotify_handle_ ≠ -1)
    (exclude_paths : List String) :
    (s.configure k fs exclude_paths).subscriptions_ = s.liveSubscriptions ∧
      Keeps fs (s.cleared fs k exclude_paths) (s.configure k fs exclude_paths) := by
  obtain ⟨hsubscriptions, -, -⟩ := h.frame_cleared (k := k) fs exclude_paths
  have hkeeps : Keeps fs (s.cleared fs k exclude_paths) (s.configure k fs exclude_paths) := by
    rw [configure_eq fs hhandle]
    apply And.right
    apply List.foldlRecOn (motive := fun s' : INotifyEventPublisher κ =>
      s'.Consistent ∧ Keeps fs (s.cleared fs k exclude_paths) s')
    · exact ⟨h.deleteMarked k, (Frame.refl _).keeps fs⟩
    · rintro s' ⟨hs', hkeeps⟩ sub -
      exact ⟨hs'.monitorSubscription k fs sub.context,
        hkeeps.trans fs (hs'.keeps_monitorSubscription fs sub.context)⟩
  exact ⟨hkeeps.subscriptions.trans hsubscriptions, hkeeps⟩

theorem coverage_of_discovery {s s' : INotifyEventPublisher κ} {i : ContextRef}
    (h : discover fs (s'.contexts i).path (s'.contexts i).recursive =
      discover fs (s.contexts i).path (s.contexts i).recursive) :
    coverage fs (s'.contexts i) = coverage fs (s.contexts i) := by
  rw [coverage, coverage, h]

/-- What a context covers after a configuration is what it covered before. -/
theorem Consistent.discovery_configure (h : s.Consistent) (hhandle : s.inotify_handle_ ≠ -1)
    (exclude_paths : List String) (i : ContextRef) :
    discover fs ((s.configure k fs exclude_paths).contexts i).path
        ((s.configure k fs exclude_paths).contexts i).recursive =
      discover fs (s.contexts i).path (s.contexts i).recursive ∧
    ((s.configure k fs exclude_paths).contexts i).mark_for_deletion =
      (s.contexts i).mark_for_deletion := by
  obtain ⟨-, -, hsettings⟩ := h.frame_cleared (k := k) fs exclude_paths
  obtain ⟨-, hkeeps⟩ := h.keeps_configure (k := k) fs hhandle exclude_paths
  obtain ⟨hpath, hrecursive, hmark, -⟩ :=
    INotifySubscriptionContext.eq_of_settings (hsettings i)
  rw [hkeeps.discovery, hkeeps.mark, hpath, hrecursive, hmark]
  exact ⟨rfl, rfl⟩

theorem Consistent.live_configure (h : s.Consistent) (hhandle : s.inotify_handle_ ≠ -1)
    (exclude_paths : List String) :
    (s.configure k fs exclude_paths).liveSubscriptions = s.liveSubscriptions := by
  obtain ⟨hsubscriptions, -⟩ := h.keeps_configure (k := k) fs hhandle exclude_paths
  rw [liveSubscriptions, hsubscriptions, List.filter_eq_self]
  intro sub hsub
  obtain ⟨-, hlive⟩ := List.mem_filter.mp hsub
  rw [isMarked, (h.discovery_configure (k := k) fs hhandle exclude_paths sub.context).2]
  exact hlive

theorem Consistent.discovery_cleared (h : s.Consistent) (exclude_paths : List String)
    (i : ContextRef) :
    discover fs ((s.cleared fs k exclude_paths).contexts i).path
        ((s.cleared fs k exclude_paths).contexts i).recursive =
      discover fs (s.contexts i).path (s.contexts i).recursive := by
  obtain ⟨-, -, hsettings⟩ := h.frame_cleared (k := k) fs exclude_paths
  obtain ⟨hpath, hrecursive, -⟩ := INotifySubscriptionContext.eq_of_settings (hsettings i)
  rw [hpath, hrecursive]

/-- No context of a live subscription is among the deleted ones. -/
theorem not_deletes_of_live {sub : Subscription} (hsub : sub ∈ s.liveSubscriptions) :
    ¬ deletes (s.subscriptions_.filter s.isMarked) sub.context := by
  rintro ⟨sub', hsub', heq⟩
  have hmarked := (List.mem_filter.mp hsub').2
  have hunmarked := (List.mem_filter.mp hsub).2
  rw [isMarked, heq] at hmarked
  rw [isMarked, hmarked] at hunmarked
  exact Bool.false_ne_true hunmarked

/-- The live subscriptions keep what they have when the marked ones are deleted. -/
theorem Sound.cleared (hk : k.Lawful live file) (h : Sound fs live file s)
    (exclude_paths : List String) :
    Tracks live file (s.cleared fs k exclude_paths) ∧
      ∀ sub ∈ s.liveSubscriptions,
        Recorded fs live file (s.cleared fs k exclude_paths) sub.context := by
  obtain ⟨-, -, hsettings⟩ := h.tracks.consistent.frame_cleared (k := k) fs exclude_paths
  have hdeletion := deletion_of_unwatch k (s := { s with subscriptions_ := s.liveSubscriptions })
    h.tracks.consistent (s.subscriptions_.filter s.isMarked)
  obtain ⟨htracks, hserves⟩ := Tracks.deletion (s := { s with
    subscriptions_ := s.liveSubscriptions }) hk ⟨h.tracks.consistent, h.tracks.live⟩
      (h.tracks.consistent.deleteMarked k) hdeletion
  refine ⟨⟨htracks.consistent, htracks.live⟩, ?_⟩
  intro sub hsub
  apply Recorded.of_settings fs (h.recorded sub (List.mem_filter.mp hsub).1) (hsettings _)
  intro q _ hq
  exact hserves _ q (not_deletes_of_live hsub) hq

/-- Live subscriptions that cover no file together are served, and stay so. -/
theorem Sound.configure (hk : k.Lawful live file) (h : Sound fs live file s)
    (hseparate : Separate fs file s) (exclude_paths : List String) :
    Sound fs live file (s.configure k fs exclude_paths) ∧
      (TimedAll fs s → ServesAll fs live file (s.configure k fs exclude_paths)) := by
  obtain ⟨hsubscriptions, hhandle, -⟩ :=
    h.tracks.consistent.frame_cleared (k := k) fs exclude_paths
  obtain ⟨htracks, hrecorded⟩ := h.cleared fs hk exclude_paths
  have hdiscovery := h.tracks.consistent.discovery_cleared (k := k) fs exclude_paths
  have hnodup : (s.liveSubscriptions.map (·.context)).Nodup :=
    h.nodup.sublist (List.filter_sublist.map _)
  have hseparate' : SeparateOn fs file s.liveSubscriptions (s.cleared fs k exclude_paths) := by
    intro sub hsub sub' hsub' hne f
    rw [covers, covers, coverage_of_discovery fs (hdiscovery sub.context),
      coverage_of_discovery fs (hdiscovery sub'.context)]
    exact hseparate sub hsub sub' hsub' hne f
  have hall := MonitoredAll.of_separate fs hk htracks s.liveSubscriptions hrecorded hnodup
    hseparate'
  rw [← hsubscriptions, ← configure_eq fs h.handle, hsubscriptions] at hall
  obtain ⟨hsubscriptions', -⟩ :=
    h.tracks.consistent.keeps_configure (k := k) fs h.handle exclude_paths
  refine ⟨⟨?_, hall.tracks, ?_, ?_⟩, ?_⟩
  · rw [hall.keeps.handle, hhandle]
    exact h.handle
  · rw [hsubscriptions']
    exact hnodup
  · intro sub hsub
    rw [hsubscriptions'] at hsub
    exact (hall.each sub hsub).1
  · intro htimed sub hsub q hq
    rw [h.tracks.consistent.live_configure fs h.handle] at hsub
    rw [coverage_of_discovery fs (h.tracks.consistent.discovery_configure fs h.handle
      exclude_paths sub.context).1, ← coverage_of_discovery fs (hdiscovery sub.context)] at hq
    apply (hall.each sub hsub).2 _ q hq
    rw [Timed, hdiscovery]
    exact htimed sub hsub

/-- Two subscriptions that are both served cover no file together. -/
theorem separateOn_of_serves {subs : List Subscription}
    (h : ∀ sub ∈ subs, ∀ q ∈ coverage fs (s.contexts sub.context),
      Serves live file s sub.context q) : SeparateOn fs file subs s := by
  rintro sub hsub sub' hsub' hne f ⟨q, hq, rfl⟩ ⟨q', hq', hfile⟩
  obtain ⟨wd, hlive, howner⟩ := h sub hsub q hq
  obtain ⟨wd', hlive', howner'⟩ := h sub' hsub' q' hq'
  rw [hfile, hlive] at hlive'
  obtain rfl := Option.some.inj hlive'
  exact hne (Option.some.inj (howner.symm.trans howner'))

theorem Sound.servesAll_iff (hk : k.Lawful live file) (h : Sound fs live file s)
    (htimed : TimedAll fs s) (exclude_paths : List String) :
    ServesAll fs live file (s.configure k fs exclude_paths) ↔ Separate fs file s := by
  constructor
  · intro hserves
    have hseparate := separateOn_of_serves fs hserves
    rw [h.tracks.consistent.live_configure fs h.handle] at hseparate
    intro sub hsub sub' hsub' hne f
    have hboth := hseparate sub hsub sub' hsub' hne f
    rw [covers, covers, coverage_of_discovery fs (h.tracks.consistent.discovery_configure fs
      h.handle exclude_paths sub.context).1, coverage_of_discovery fs
        (h.tracks.consistent.discovery_configure fs h.handle exclude_paths sub'.context).1] at hboth
    exact hboth
  · intro hseparate
    exact (h.configure fs hk hseparate exclude_paths).2 htimed

/-! ### Runs -/

inductive Reconfiguration
  | addSubscription (subscription : Subscription)
  | removeSubscriptions (subscriber : String)
  | configure (exclude_paths : List String)

def reconfigure (k : Inotify κ) (s : INotifyEventPublisher κ) :
    Reconfiguration → INotifyEventPublisher κ
  | .addSubscription subscription => (s.addSubscription subscription).2
  | .removeSubscriptions subscriber => s.removeSubscriptions subscriber
  | .configure exclude_paths => s.configure k fs exclude_paths

/-- A context that becomes one of a subscription recorded no time, and a configuration finds
live subscriptions that cover no file together. -/
def Meets (file : String → φ) (s : INotifyEventPublisher κ) : Reconfiguration → Prop
  | .addSubscription subscription =>
      (∀ sub ∈ s.subscriptions_,
        (s.contexts subscription.context).same (s.contexts sub.context) = false) →
          (s.contexts subscription.context).path_sc_time_ = ∅
  | .removeSubscriptions _ => True
  | .configure _ => Separate fs file s

def MeetsAll (file : String → φ) (k : Inotify κ) (s : INotifyEventPublisher κ) :
    List Reconfiguration → Prop
  | [] => True
  | action :: actions =>
      Meets fs file s action ∧ MeetsAll file k (s.reconfigure fs k action) actions

theorem Sound.mark (h : Sound fs live file s) (isc : ContextRef) (mark : Bool) :
    Sound fs live file (s.modifyContext isc fun c => { c with mark_for_deletion := mark }) := by
  have hwatches := h.tracks.modifyContext isc (fun _ => False)
    (fun c => { c with mark_for_deletion := mark }) fun _ => rfl
  refine ⟨h.handle, hwatches.tracks, h.nodup, ?_⟩
  intro sub hsub
  have hserves : ∀ q ∈ coverage fs (s.contexts sub.context),
      Serves live file s sub.context q → Serves live file
        (s.modifyContext isc fun c => { c with mark_for_deletion := mark }) sub.context q :=
    fun q _ hq => hwatches.serves _ q hq (.inr not_false)
  by_cases hi : sub.context = isc
  · subst hi
    apply (h.recorded sub hsub).mono fs _ _ _ hserves
    · rw [contexts_modifyContext_self]
    · rw [contexts_modifyContext_self]
    · rw [contexts_modifyContext_self]
  · apply (h.recorded sub hsub).of_settings fs _ hserves
    rw [contexts_modifyContext_of_ne s hi]

theorem Sound.removeSubscriptions (h : Sound fs live file s) (subscriber : String) :
    Sound fs live file (s.removeSubscriptions subscriber) := by
  rw [INotifyEventPublisher.removeSubscriptions]
  apply List.foldlRecOn
  · exact h
  · intro s hs sub _
    exact hs.mark fs sub.context true

theorem Sound.addSubscription (h : Sound fs live file s) {subscription : Subscription}
    (hmeets : Meets fs file s (.addSubscription subscription)) :
    Sound fs live file (s.addSubscription subscription).2 := by
  rw [INotifyEventPublisher.addSubscription]
  split
  · next hnone =>
      have hother : ∀ sub ∈ s.subscriptions_,
          (s.contexts subscription.context).same (s.contexts sub.context) = false := by
        intro sub hsub
        exact Bool.eq_false_iff.mpr (List.find?_eq_none.mp hnone sub hsub)
      refine ⟨h.handle, ⟨h.tracks.consistent, h.tracks.live⟩, ?_, ?_⟩
      · rw [List.map_append, List.map_singleton, List.nodup_append']
        refine ⟨h.nodup, List.nodup_singleton _, ?_⟩
        rw [List.disjoint_singleton, List.mem_map]
        rintro ⟨sub, hsub, heq⟩
        have hsame := hother sub hsub
        rw [heq, INotifySubscriptionContext.same] at hsame
        simp at hsame
      · intro sub hsub
        rcases List.mem_append.mp hsub with hsub | hsub
        · exact h.recorded sub hsub
        · obtain rfl := List.mem_singleton.mp hsub
          intro p t ht
          have hunrecorded : (s.contexts sub.context).path_sc_time_[p]? = some t := ht
          rw [hmeets hother, Std.ExtTreeMap.getElem?_empty] at hunrecorded
          exact absurd hunrecorded (Option.some_ne_none t).symm
  · split
    · exact h.mark fs _ false
    · exact h

theorem Sound.reconfigure (hk : k.Lawful live file) (h : Sound fs live file s)
    {action : Reconfiguration} (hmeets : Meets fs file s action) :
    Sound fs live file (s.reconfigure fs k action) := by
  cases action with
  | addSubscription subscription => exact h.addSubscription fs hmeets
  | removeSubscriptions subscriber => exact h.removeSubscriptions fs subscriber
  | configure exclude_paths => exact (h.configure fs hk hmeets exclude_paths).1

theorem Sound.run (hk : k.Lawful live file) (h : Sound fs live file s)
    {actions : List Reconfiguration} (hmeets : MeetsAll fs file k s actions) :
    Sound fs live file (actions.foldl (INotifyEventPublisher.reconfigure fs k) s) := by
  induction actions generalizing s with
  | nil => exact h
  | cons action actions ih =>
      obtain ⟨hmeets, hrest⟩ := hmeets
      exact ih (h.reconfigure fs hk hmeets) hrest

/-- An event of a descriptor with an action that a context wants fires unless its path is
excluded. -/
def Accepts (k : Inotify κ) (s : INotifyEventPublisher κ) (isc : ContextRef) (wd : Int) : Prop :=
  ∀ event, event.wd = wd →
    (s.contexts isc).mask = 0 ∨ event.mask &&& (s.contexts isc).mask ≠ 0 →
      ∃ ec, s.createEventContextFrom event = some ec ∧ ec.event = event ∧
        (s.shouldFire k fs isc ec).1 = !s.excludes ec.path

theorem Consistent.shouldFire_eq (h : s.Consistent) {isc : ContextRef} {ec : INotifyEventContext}
    (hcontext : ec.isub_ctx = some isc)
    (hmask : (s.contexts isc).mask = 0 ∨ ec.event.mask &&& (s.contexts isc).mask ≠ 0) :
    (INotifyEventPublisher.shouldFire k fs s isc ec).1 = !s.excludes ec.path := by
  have hwanted : ¬ ((s.contexts isc).mask ≠ 0 ∧ ec.event.mask &&& (s.contexts isc).mask = 0) := by
    rintro ⟨hne, heq⟩
    exact hmask.elim hne (· heq)
  rw [INotifyEventPublisher.shouldFire, if_neg (not_not.mpr hcontext), if_neg hwanted]
  simp only
  split
  · have hframe := h.frame_addMonitor (k := k) fs (ec.path ++ "/") isc (s.contexts isc).mask true
      true
    rw [excludes, excludes, hframe.exclude]
  · rfl

theorem Consistent.accepts (h : s.Consistent) {isc : ContextRef} {wd : Int}
    (howner : s.descriptor_inosubctx_[wd]? = some isc) : Accepts fs k s isc wd := by
  rintro event rfl hmask
  have hpath := (h event.wd isc).mp howner
  rw [Std.ExtTreeMap.mem_iff_isSome_getElem?, Option.isSome_iff_exists] at hpath
  obtain ⟨path, hpath⟩ := hpath
  have hcreated : s.createEventContextFrom event = some
      { event := event
        path := if event.len > 1 then path ++ event.name else path
        action := actionOf event.mask
        isub_ctx := some isc } := by
    simp only [INotifyEventPublisher.createEventContextFrom, howner, hpath]
  exact ⟨_, hcreated, rfl, h.shouldFire_eq fs rfl hmask⟩

/-- From a publisher without subscriptions, whose descriptors come from a kernel that adds
every watch, through steps that meet the condition: a configuration serves every live
subscription on all that it covers exactly when no two of them cover a file together. -/
theorem served_iff_separate (hk : k.Lawful live file) {s₀ : INotifyEventPublisher κ}
    (hfresh : s₀.Fresh) (hhandle : s₀.inotify_handle_ ≠ -1) (hnone : s₀.subscriptions_ = [])
    {actions : List Reconfiguration} (hmeets : MeetsAll fs file k s₀ actions)
    (htimed : TimedAll fs (actions.foldl (reconfigure fs k) s₀)) (exclude_paths : List String) :
    let s := (actions.foldl (reconfigure fs k) s₀).configure k fs exclude_paths
    (∀ sub ∈ s.liveSubscriptions, ∀ path ∈ coverage fs (s.contexts sub.context),
      ∃ wd, live s.kernel (file path) = some wd ∧
        s.descriptor_inosubctx_[wd]? = some sub.context ∧ Accepts fs k s sub.context wd) ↔
      Separate fs file (actions.foldl (reconfigure fs k) s₀) := by
  have hstart : Sound fs live file s₀ := by
    refine ⟨hhandle, ⟨hfresh.consistent, ?_⟩, ?_, ?_⟩
    · intro i wd path hpath
      rw [hfresh.paths, Std.ExtTreeMap.getElem?_empty] at hpath
      exact absurd hpath (Option.some_ne_none path).symm
    · rw [hnone]
      exact List.nodup_nil
    · rw [hnone]
      exact fun sub hsub => absurd hsub List.not_mem_nil
  have hsound := hstart.run fs hk hmeets
  intro s
  rw [← hsound.servesAll_iff fs hk htimed exclude_paths]
  constructor
  · intro hall sub hsub path hpath
    obtain ⟨wd, hlive, howner, -⟩ := hall sub hsub path hpath
    exact ⟨wd, hlive, howner⟩
  · intro hall sub hsub path hpath
    obtain ⟨wd, hlive, howner⟩ := hall sub hsub path hpath
    have hconsistent := hsound.tracks.consistent.configure k fs exclude_paths
    exact ⟨wd, hlive, howner, hconsistent.accepts fs howner⟩

def lengthLive (kernel : List ℕ) (file : ℕ) : Option Int :=
  if file ∈ kernel then some (file + 1) else none

theorem lengthKernel_lawful : lengthKernel.Lawful lengthLive String.length where
  distinct := by
    intro kernel f f' d hf hf'
    simp only [lengthLive, Option.ite_none_right_eq_some, Option.some.injEq] at hf hf'
    omega
  added := by
    intro kernel path mask
    simp only [lengthKernel]
    omega
  live_self := by
    intro kernel path mask
    simp [lengthLive, lengthKernel]
  live_other := by
    intro kernel path mask f hf
    simp [lengthLive, lengthKernel, hf]
  same := by
    intro kernel path d hd mask
    simp only [lengthLive, Option.ite_none_right_eq_some, Option.some.injEq] at hd
    simp only [lengthKernel]
    exact hd.2
  live_removed := by
    intro kernel d f
    simp only [lengthLive, lengthKernel, List.mem_filter]
    grind

def bothAdded : List Reconfiguration :=
  [.addSubscription ⟨"file_events", 0⟩, .addSubscription ⟨"yara_events", 1⟩]

/-- The publisher whose contexts want the paths of two directories. -/
def separatePublisher : INotifyEventPublisher (List ℕ) :=
  { sharedPublisher with
    contexts := fun isc =>
      if isc = 0 then { path := "/d/", opath := "/d/", category := "system" }
      else { path := "/home/", opath := "/home/", category := "home" } }

def separateAdded : INotifyEventPublisher (List ℕ) :=
  bothAdded.foldl (reconfigure flatFileSystem lengthKernel) separatePublisher

theorem separate_separateAdded : Separate flatFileSystem String.length separateAdded := by
  have hlive : separateAdded.liveSubscriptions = [⟨"file_events", 0⟩, ⟨"yara_events", 1⟩] := by
    decide +kernel
  have hsystem : coverage flatFileSystem (separateAdded.contexts 0) = ["/d/"] := by
    decide +kernel
  have hhome : coverage flatFileSystem (separateAdded.contexts 1) = ["/home/"] := by
    decide +kernel
  rintro sub hsub sub' hsub' hne f ⟨q, hq, rfl⟩ ⟨q', hq', hfile⟩
  simp only [hlive, List.mem_cons, List.not_mem_nil, or_false] at hsub hsub'
  rcases hsub with rfl | rfl
  · rcases hsub' with rfl | rfl
    · exact hne rfl
    · rw [hsystem, List.mem_singleton] at hq
      rw [hhome, List.mem_singleton] at hq'
      rw [hq, hq'] at hfile
      exact absurd hfile (by decide)
  · rcases hsub' with rfl | rfl
    · rw [hhome, List.mem_singleton] at hq
      rw [hsystem, List.mem_singleton] at hq'
      rw [hq, hq'] at hfile
      exact absurd hfile (by decide)
    · exact hne rfl

theorem served_iff_separate_disjoint :
    ServesAll flatFileSystem lengthLive String.length
      (separateAdded.configure lengthKernel flatFileSystem []) := by
  have hfresh : separatePublisher.Fresh := by
    refine ⟨rfl, fun isc => ?_⟩
    simp only [separatePublisher]
    split
    · rfl
    · rfl
  have hhandle : separatePublisher.inotify_handle_ ≠ -1 := by decide
  have hmeets : MeetsAll flatFileSystem String.length lengthKernel separatePublisher bothAdded :=
    ⟨fun _ => rfl, fun _ => rfl, trivial⟩
  have htimed : TimedAll flatFileSystem separateAdded := by
    intro sub _ path _
    simp [flatFileSystem]
  intro sub hsub path hpath
  obtain ⟨wd, hlive, howner, -⟩ := (served_iff_separate flatFileSystem lengthKernel_lawful hfresh
    hhandle rfl hmeets htimed []).mpr separate_separateAdded sub hsub path hpath
  exact ⟨wd, hlive, howner⟩

/-- Of two live subscriptions of one directory, the first is not served, and removing the other
one does not bring its watch back. -/
theorem served_shared :
    lengthKernel.Lawful lengthLive String.length ∧
    ¬ ServesAll flatFileSystem lengthLive String.length
      ((bothAdded ++ [Reconfiguration.configure []]).foldl
        (reconfigure flatFileSystem lengthKernel) sharedPublisher) ∧
    ¬ ServesAll flatFileSystem lengthLive String.length
      ((bothAdded ++ [Reconfiguration.configure [],
        Reconfiguration.removeSubscriptions "yara_events", Reconfiguration.configure []]).foldl
          (reconfigure flatFileSystem lengthKernel) sharedPublisher) := by
  refine ⟨lengthKernel_lawful, ?_, ?_⟩
  · intro hall
    have hfour : lengthLive ((bothAdded ++ [Reconfiguration.configure []]).foldl
        (reconfigure flatFileSystem lengthKernel) sharedPublisher).kernel "/d/".length =
          some 4 := by decide +kernel
    obtain ⟨wd, hlive, howner⟩ := hall ⟨"file_events", 0⟩ (by decide +kernel) "/d/"
      (by decide +kernel)
    obtain rfl := Option.some.inj (hfour.symm.trans hlive)
    exact absurd howner (by decide +kernel)
  · intro hall
    have hnone : lengthLive ((bothAdded ++ [Reconfiguration.configure [],
        Reconfiguration.removeSubscriptions "yara_events", Reconfiguration.configure []]).foldl
          (reconfigure flatFileSystem lengthKernel) sharedPublisher).kernel "/d/".length =
            none := by decide +kernel
    obtain ⟨wd, hlive, -⟩ := hall ⟨"file_events", 0⟩ (by decide +kernel) "/d/"
      (by decide +kernel)
    rw [hnone] at hlive
    exact absurd hlive (Option.some_ne_none wd).symm

end Osquery.EventPublishers.INotifyEventPublisher
