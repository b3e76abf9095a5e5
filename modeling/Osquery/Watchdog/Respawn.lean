import Osquery.Core.Status
import Osquery.Watchdog.Performance
import Mathlib.Data.Fintype.EquivFin

/-!
# Children that are created again

The watcher keeps a performance state for the worker and one for each extension path. A child
that is created again takes over the state of the children before it, with the counters reset
but with the initial footprint of the first of them, so its memory is judged from a baseline
that is not its own.

## Implementation notes

Process ids are integers. The extension states are a function: a path without an entry reads as
a new state, which is the entry that `operator[]` makes. The watcher is locked while it samples,
so samples, resets and respawns are events in one order. A child that could not be launched
leaves the watcher as it was.
-/

namespace Osquery.Watchdog.Respawn

open Osquery.Core Foundation.Numeral Foundation.Transducers Performance

/-- The worker, or the extension with a path. -/
inductive Slot
  | worker
  | extension (path : String)
  deriving DecidableEq

def kInvalidPid : ℤ := -1

structure Watcher where
  worker_ : ℤ
  state_ : PerformanceState
  extensions_ : Std.ExtTreeMap String ℤ
  extension_states_ : String → PerformanceState

def Watcher.new : Watcher := ⟨kInvalidPid, .new, ∅, fun _ => .new⟩

namespace Watcher

def state (w : Watcher) : Slot → PerformanceState
  | .worker => w.state_
  | .extension path => w.extension_states_ path

def modifyState (w : Watcher) (g : PerformanceState → PerformanceState) : Slot → Watcher
  | .worker => { w with state_ := g w.state_ }
  | .extension path =>
      { w with
        extension_states_ :=
          Function.update w.extension_states_ path (g (w.extension_states_ path)) }

/-- The process of a slot; an extension that was never added has none. -/
def child (w : Watcher) : Slot → Option ℤ
  | .worker => some w.worker_
  | .extension path => w.extensions_[path]?

/-- `setWorker` and `setExtension`. -/
def setChild (w : Watcher) (pid : ℤ) : Slot → Watcher
  | .worker => { w with worker_ := pid }
  | .extension path => { w with extensions_ := w.extensions_.insert path pid }

/-- `resetWorkerCounters` and `resetExtensionCounters`. -/
def resetCounters (w : Watcher) (respawn_time : UInt64) (slot : Slot) : Watcher :=
  w.modifyState (·.resetCounters respawn_time) slot

def getExtensionPath (w : Watcher) (child : ℤ) : String :=
  ((w.extensions_.toList.find? fun extension => extension.2 = child).map Prod.fst).getD ""

/-- The slot whose state `getState` finds for a process. -/
def getState (w : Watcher) (child : ℤ) : Slot :=
  if child = w.worker_ then .worker else .extension (w.getExtensionPath child)

/-- The process and the counters of a slot after its child is given up or created. -/
def renew (w : Watcher) (pid : ℤ) (respawn_time : UInt64) (slot : Slot) : Watcher :=
  (w.setChild pid slot).resetCounters respawn_time slot

/-- The paths of the extensions whose process it is. -/
def pathsOf (w : Watcher) (child : ℤ) : List String :=
  (w.extensions_.toList.filter fun extension => extension.2 = child).map Prod.fst

def reset (w : Watcher) (child : ℤ) : Watcher :=
  if child = w.worker_ then w.renew kInvalidPid 0 .worker
  else (w.pathsOf child).foldl (fun w path => w.renew kInvalidPid 0 (.extension path)) w

def addExtensionPath (w : Watcher) (path : String) : Watcher :=
  w.renew kInvalidPid 0 (.extension path)

/-- `createWorker` and `createExtension` with the process that was launched. -/
def create (w : Watcher) (respawn_time : UInt64) (pid : ℤ) (slot : Slot) : Watcher :=
  w.renew pid respawn_time slot

end Watcher

variable (flags : Flags) (currentPid : Int32)

/-- What is said about a child whose parent is the watcher. -/
def judge (change : PerformanceChange) : Status :=
  if exceededCyclesLimit flags change then
    ⟨1, "Maximum sustainable CPU utilization limit exceeded: " ++
      toText (change.sustained_latency * change.iv.toNat)⟩
  else if exceededMemoryLimit flags change then
    ⟨1, "Memory limits exceeded: " ++ toText change.footprint.toNat⟩
  else ⟨0, "OK"⟩

/-- `isChildSane` with the first row the processes table has for the process; for an invalid
one the table has none. -/
def isChildSane (w : Watcher) (child : ℤ) (sample : Option Sample) : Watcher × Status :=
  match if child = kInvalidPid then none else sample with
  | none => (w, ⟨1, "Cannot find process"⟩)
  | some sample =>
      let slot := w.getState child
      let changed := getChange flags (w.state slot) sample
      let w := w.modifyState (fun _ => changed.1) slot
      -- The process id may have been taken by a process that is no child of the watcher.
      if changed.2.parent ≠ currentPid then (w.reset child, ⟨0, "OK"⟩)
      else (w, judge flags changed.2)

inductive Event
  | addExtensionPath (path : String)
  | resetWorkerCounters (respawn_time : UInt64)
  | create (slot : Slot) (respawn_time : UInt64) (pid : ℤ)
  | check (slot : Slot) (sample : Option Sample)

/-- One event, and the decision about the child of a slot if it is checked. -/
def step (w : Watcher) : Event → Watcher × Option (Slot × Status)
  | .addExtensionPath path => (w.addExtensionPath path, none)
  | .resetWorkerCounters respawn_time => (w.resetCounters respawn_time .worker, none)
  | .create slot respawn_time pid => (w.create respawn_time pid slot, none)
  | .check slot sample =>
      match w.child slot with
      | none => (w, none)
      | some child =>
          let sane := isChildSane flags currentPid w child sample
          (sane.1, some (slot, sane.2))

/-! ### Changing the state of one slot -/

namespace Watcher

section ModifyState

variable (w : Watcher) (g h : PerformanceState → PerformanceState)

@[simp] theorem state_modifyState_same (slot : Slot) :
    (w.modifyState g slot).state slot = g (w.state slot) := by
  cases slot with
  | worker => rfl
  | extension path => exact Function.update_self ..

theorem state_modifyState_of_ne {slot slot' : Slot} (hne : slot' ≠ slot) :
    (w.modifyState g slot).state slot' = w.state slot' := by
  cases slot with
  | worker =>
      cases slot' with
      | worker => exact absurd rfl hne
      | extension path => rfl
  | extension path =>
      cases slot' with
      | worker => rfl
      | extension path' =>
          exact Function.update_of_ne (fun heq => hne (congrArg Slot.extension heq)) _ _

@[simp] theorem child_modifyState (slot slot' : Slot) :
    (w.modifyState g slot).child slot' = w.child slot' := by
  cases slot <;> cases slot' <;> rfl

@[simp] theorem getState_modifyState (slot : Slot) (child : ℤ) :
    (w.modifyState g slot).getState child = w.getState child := by
  cases slot <;> rfl

theorem modifyState_comm_of_ne {slot slot' : Slot} (hne : slot ≠ slot') :
    (w.modifyState g slot).modifyState h slot' = (w.modifyState h slot').modifyState g slot := by
  cases slot with
  | worker =>
      cases slot' with
      | worker => exact absurd rfl hne
      | extension path => rfl
  | extension path =>
      cases slot' with
      | worker => rfl
      | extension path' =>
          have hpath : path ≠ path' := fun heq => hne (congrArg Slot.extension heq)
          simp only [modifyState, Function.update_of_ne hpath, Function.update_of_ne hpath.symm,
            Function.update_comm hpath]

theorem modifyState_modifyState (slot : Slot) :
    (w.modifyState g slot).modifyState h slot = w.modifyState (fun state => h (g state)) slot := by
  cases slot with
  | worker => rfl
  | extension path => simp only [modifyState, Function.update_self, Function.update_idem]

theorem modifyState_comm (hcomm : ∀ state, h (g state) = g (h state)) (slot slot' : Slot) :
    (w.modifyState g slot).modifyState h slot' = (w.modifyState h slot').modifyState g slot := by
  by_cases heq : slot = slot'
  · subst heq
    simp only [modifyState_modifyState, hcomm]
  · exact modifyState_comm_of_ne w g h heq

theorem setChild_modifyState (pid : ℤ) (slot slot' : Slot) :
    (w.modifyState g slot).setChild pid slot' = (w.setChild pid slot').modifyState g slot := by
  cases slot <;> cases slot' <;> rfl

end ModifyState

/-- The watcher with another initial footprint for a slot. -/
def withBaseline (w : Watcher) (baseline : UInt64) (slot : Slot) : Watcher :=
  w.modifyState (·.withBaseline baseline) slot

theorem renew_withBaseline (w : Watcher) (baseline respawn_time : UInt64) (pid : ℤ)
    (slot slot' : Slot) :
    (w.withBaseline baseline slot).renew pid respawn_time slot' =
      (w.renew pid respawn_time slot').withBaseline baseline slot := by
  rw [renew, renew, withBaseline, withBaseline, setChild_modifyState, resetCounters, resetCounters]
  exact modifyState_comm _ (·.withBaseline baseline) (·.resetCounters respawn_time) (fun _ => rfl)
    _ _

theorem foldl_renew_withBaseline (w : Watcher) (baseline : UInt64) (slot : Slot)
    (paths : List String) :
    paths.foldl (fun w path => w.renew kInvalidPid 0 (.extension path))
        (w.withBaseline baseline slot) =
      (paths.foldl (fun w path => w.renew kInvalidPid 0 (.extension path)) w).withBaseline
        baseline slot := by
  induction paths generalizing w with
  | nil => rfl
  | cons path paths ih => rw [List.foldl_cons, renew_withBaseline, ih, List.foldl_cons]

theorem reset_withBaseline (w : Watcher) (baseline : UInt64) (slot : Slot) (child : ℤ) :
    (w.withBaseline baseline slot).reset child = (w.reset child).withBaseline baseline slot := by
  have hworker : (w.withBaseline baseline slot).worker_ = w.worker_ := by cases slot <;> rfl
  have hpaths : (w.withBaseline baseline slot).pathsOf child = w.pathsOf child := by
    cases slot <;> rfl
  rw [reset, reset, hworker, hpaths]
  split_ifs
  · exact renew_withBaseline ..
  · exact foldl_renew_withBaseline ..

end Watcher

/-! ### Baselines that make no difference -/

/-- No footprint above the baseline can exceed the memory limit. -/
def NoRoomAbove (baseline : UInt64) : Prop :=
  2 ^ 64 - 1 ≤ baseline.toNat + (memoryLimitBytes flags).toNat

theorem exceededMemoryLimit_eq_false {change : PerformanceChange}
    (h : change.footprint ≤ memoryLimitBytes flags) : exceededMemoryLimit flags change = false := by
  rw [exceededMemoryLimit]
  split_ifs
  · rfl
  · exact decide_eq_false (UInt64.not_lt.2 h)

theorem getChange_footprint_le {state : PerformanceState} (hne : state.initial_footprint ≠ 0)
    (h : NoRoomAbove flags state.initial_footprint) (sample : Sample) :
    (getChange flags state sample).2.footprint ≤ memoryLimitBytes flags := by
  simp only [getChange, if_neg hne, postLaunch]
  split_ifs with hlt
  · exact UInt64.zero_le
  · rw [NoRoomAbove] at h
    rw [UInt64.le_iff_toNat_le, UInt64.toNat_sub_of_le _ _ (UInt64.not_lt.1 hlt)]
    have hbound := ((readCounters sample.row).footprint.getD sample.unset.footprint).toNat_lt
    omega

/-- Above baselines without room a child is judged by its CPU use alone. -/
theorem judge_withBaseline {state : PerformanceState} {baseline : UInt64}
    (hne : state.initial_footprint ≠ 0) (h : NoRoomAbove flags state.initial_footprint)
    (hne' : baseline ≠ 0) (h' : NoRoomAbove flags baseline) (sample : Sample) :
    judge flags (getChange flags (state.withBaseline baseline) sample).2 =
      judge flags (getChange flags state sample).2 := by
  have hmem := exceededMemoryLimit_eq_false flags (getChange_footprint_le flags hne h sample)
  have hmem' := exceededMemoryLimit_eq_false flags
    (@getChange_footprint_le flags (state.withBaseline baseline) hne' h' sample)
  rw [judge, judge, hmem, hmem']
  rfl

theorem getChange_withBaseline {state : PerformanceState} {baseline : UInt64}
    (hne : state.initial_footprint ≠ 0) (hne' : baseline ≠ 0) (sample : Sample) :
    (getChange flags (state.withBaseline baseline) sample).1 =
      (getChange flags state sample).1.withBaseline baseline := by
  simp [getChange, PerformanceState.withBaseline, hne, hne']

/-- Giving up or creating a child keeps every initial footprint. -/
theorem Watcher.state_renew_initial (w : Watcher) (pid : ℤ) (respawn_time : UInt64)
    (slot slot' : Slot) :
    ((w.renew pid respawn_time slot).state slot').initial_footprint =
      (w.state slot').initial_footprint := by
  have hchild : ∀ s, (w.setChild pid slot).state s = w.state s := by
    intro s
    cases slot <;> rfl
  rw [renew, resetCounters]
  by_cases heq : slot' = slot
  · subst heq
    rw [state_modifyState_same, hchild]
    rfl
  · rw [state_modifyState_of_ne _ _ heq, hchild]

theorem Watcher.state_reset_initial (w : Watcher) (child : ℤ) (slot : Slot) :
    ((w.reset child).state slot).initial_footprint = (w.state slot).initial_footprint := by
  have hfold : ∀ paths : List String,
      ((paths.foldl (fun w path => w.renew kInvalidPid 0 (.extension path)) w).state
          slot).initial_footprint =
        (w.state slot).initial_footprint := by
    intro paths
    induction paths using List.reverseRecOn with
    | nil => rfl
    | append_singleton paths path ih =>
        rw [List.foldl_append, List.foldl_cons, List.foldl_nil, state_renew_initial, ih]
  rw [reset]
  split_ifs
  · exact state_renew_initial ..
  · exact hfold _

theorem getChange_initial_footprint (state : PerformanceState) (sample : Sample) :
    (getChange flags state sample).1.initial_footprint =
      if state.initial_footprint = 0 then
        (readCounters sample.row).footprint.getD sample.unset.footprint
      else state.initial_footprint := rfl

theorem isChildSane_withBaseline {w : Watcher} {slot : Slot} {baseline : UInt64}
    (hne : (w.state slot).initial_footprint ≠ 0)
    (h : NoRoomAbove flags (w.state slot).initial_footprint)
    (hne' : baseline ≠ 0) (h' : NoRoomAbove flags baseline) (child : ℤ) (sample : Option Sample) :
    isChildSane flags currentPid (w.withBaseline baseline slot) child sample =
      ((isChildSane flags currentPid w child sample).1.withBaseline baseline slot,
        (isChildSane flags currentPid w child sample).2) := by
  cases hrow : if child = kInvalidPid then none else sample with
  | none => simp only [isChildSane, hrow]
  | some row =>
      have hget : (w.withBaseline baseline slot).getState child = w.getState child :=
        w.getState_modifyState _ slot child
      have hstate : ∀ slot', (w.withBaseline baseline slot).state slot' =
          if slot' = slot then (w.state slot).withBaseline baseline else w.state slot' := by
        intro slot'
        split_ifs with hslot
        · rw [hslot]
          exact w.state_modifyState_same _ slot
        · exact w.state_modifyState_of_ne _ hslot
      have hwatcher : (w.withBaseline baseline slot).modifyState
            (fun _ =>
              (getChange flags ((w.withBaseline baseline slot).state (w.getState child)) row).1)
            (w.getState child) =
          (w.modifyState (fun _ => (getChange flags (w.state (w.getState child)) row).1)
            (w.getState child)).withBaseline baseline slot := by
        rw [hstate]
        split_ifs with hslot
        · rw [hslot, getChange_withBaseline flags hne hne', Watcher.withBaseline,
            Watcher.withBaseline, Watcher.modifyState_modifyState, Watcher.modifyState_modifyState]
        · exact (w.modifyState_comm_of_ne _ _ hslot).symm
      have hparent : (getChange flags ((w.withBaseline baseline slot).state (w.getState child))
          row).2.parent = (getChange flags (w.state (w.getState child)) row).2.parent := rfl
      have hjudge : judge flags (getChange flags ((w.withBaseline baseline slot).state
            (w.getState child)) row).2 =
          judge flags (getChange flags (w.state (w.getState child)) row).2 := by
        rw [hstate]
        split_ifs with hslot
        · rw [hslot]
          exact judge_withBaseline flags hne h hne' h' row
        · rfl
      simp only [isChildSane, hrow, hget, hwatcher, hparent, hjudge, Watcher.reset_withBaseline]
      split_ifs <;> rfl

/-- Two baselines without room above them are kept apart by no event. -/
theorem step_withBaseline {w : Watcher} {slot : Slot} {baseline : UInt64}
    (hne : (w.state slot).initial_footprint ≠ 0)
    (h : NoRoomAbove flags (w.state slot).initial_footprint)
    (hne' : baseline ≠ 0) (h' : NoRoomAbove flags baseline) (event : Event) :
    step flags currentPid (w.withBaseline baseline slot) event =
      ((step flags currentPid w event).1.withBaseline baseline slot,
        (step flags currentPid w event).2) := by
  cases event with
  | addExtensionPath path => exact congrArg (·, none) (Watcher.renew_withBaseline ..)
  | resetWorkerCounters respawn_time =>
      exact congrArg (·, none) (w.modifyState_comm (·.withBaseline baseline)
        (·.resetCounters respawn_time) (fun _ => rfl) _ _)
  | create slot' respawn_time pid => exact congrArg (·, none) (Watcher.renew_withBaseline ..)
  | check slot' sample =>
      have hchild : (w.withBaseline baseline slot).child slot' = w.child slot' :=
        w.child_modifyState _ slot slot'
      cases hslot : w.child slot' with
      | none => simp only [step, hchild, hslot]
      | some child =>
          simp only [step, hchild, hslot, isChildSane_withBaseline flags currentPid hne h hne' h']

/-! ### What the events record -/

/-- The footprint a sample is read to report. -/
def footprintRead (sample : Sample) : UInt64 :=
  (readCounters sample.row).footprint.getD sample.unset.footprint

/-- The slot whose state an event charges with a sample. -/
def charged (w : Watcher) : Event → Option (Slot × Sample)
  | .check slot sample =>
      (w.child slot).bind fun child =>
        (if child = kInvalidPid then none else sample).map fun sample => (w.getState child, sample)
  | _ => none

/-- The footprints read in the samples of the children of a slot. -/
def footprints (slot : Slot) : Watcher → List Event → List UInt64
  | _, [] => []
  | w, event :: events =>
      (((charged w event).filter (·.1 = slot)).map (footprintRead ·.2)).toList ++
        footprints slot (step flags currentPid w event).1 events

/-- The first footprint that is not zero, or zero. -/
def firstFootprint : List UInt64 → UInt64
  | [] => 0
  | footprint :: rest => if footprint = 0 then firstFootprint rest else footprint

theorem isChildSane_initial_footprint (w : Watcher) {child : ℤ} (hvalid : child ≠ kInvalidPid)
    (sample : Sample) (slot : Slot) :
    ((isChildSane flags currentPid w child (some sample)).1.state slot).initial_footprint =
      if w.getState child = slot ∧ (w.state slot).initial_footprint = 0 then footprintRead sample
      else (w.state slot).initial_footprint := by
  have hchanged : ((w.modifyState (fun _ => (getChange flags (w.state (w.getState child)) sample).1)
      (w.getState child)).state slot).initial_footprint =
        if w.getState child = slot ∧ (w.state slot).initial_footprint = 0 then footprintRead sample
        else (w.state slot).initial_footprint := by
    by_cases hslot : w.getState child = slot
    · subst hslot
      rw [Watcher.state_modifyState_same, getChange_initial_footprint]
      simp only [true_and, footprintRead]
    · rw [Watcher.state_modifyState_of_ne _ _ (Ne.symm hslot), if_neg (fun h => hslot h.1)]
  by_cases hparent : (getChange flags (w.state (w.getState child)) sample).2.parent ≠ currentPid
  · simp only [isChildSane, if_neg hvalid, if_pos hparent]
    rw [Watcher.state_reset_initial, hchanged]
  · simp only [isChildSane, if_neg hvalid, if_neg hparent]
    exact hchanged

theorem step_initial_footprint (w : Watcher) (event : Event) (slot : Slot) :
    ((step flags currentPid w event).1.state slot).initial_footprint =
      if (w.state slot).initial_footprint = 0 then
        (((charged w event).filter (·.1 = slot)).map (footprintRead ·.2)).getD 0
      else (w.state slot).initial_footprint := by
  have hkept : (w.state slot).initial_footprint =
      if (w.state slot).initial_footprint = 0 then 0 else (w.state slot).initial_footprint := by
    split_ifs with hzero
    · exact hzero
    · rfl
  cases event with
  | addExtensionPath path => exact (Watcher.state_renew_initial ..).trans hkept
  | resetWorkerCounters respawn_time =>
      exact (Watcher.state_renew_initial w w.worker_ respawn_time .worker slot).trans hkept
  | create slot' respawn_time pid => exact (Watcher.state_renew_initial ..).trans hkept
  | check slot' sample =>
      cases hchild : w.child slot' with
      | none => simp [step, charged, hchild]
      | some child =>
          by_cases hvalid : child = kInvalidPid
          · simp [step, charged, hchild, isChildSane, hvalid]
          · cases sample with
            | none => simp [step, charged, hchild, isChildSane]
            | some sample =>
                simp only [step, hchild, isChildSane_initial_footprint flags currentPid w hvalid,
                  charged, Option.bind_some, if_neg hvalid, Option.map_some, Option.filter_some]
                by_cases hslot : w.getState child = slot
                · simp [hslot]
                · simp [hslot]

theorem firstFootprint_toList_append (footprint : Option UInt64) (rest : List UInt64) :
    firstFootprint (footprint.toList ++ rest) =
      if footprint.getD 0 = 0 then firstFootprint rest else footprint.getD 0 := by
  cases footprint with
  | none => rfl
  | some footprint => rfl

theorem stateAfter_initial_footprint (w : Watcher) (events : List Event) (slot : Slot) :
    ((stateAfter (step flags currentPid) w events).state slot).initial_footprint =
      if (w.state slot).initial_footprint = 0 then
        firstFootprint (footprints flags currentPid slot w events)
      else (w.state slot).initial_footprint := by
  induction events generalizing w with
  | nil =>
      rw [stateAfter_nil, footprints]
      split_ifs with hzero
      · exact hzero
      · rfl
  | cons event events ih =>
      rw [stateAfter_cons, ih, step_initial_footprint, footprints,
        firstFootprint_toList_append]
      by_cases hzero : (w.state slot).initial_footprint = 0
      · simp only [if_pos hzero]
      · simp only [if_neg hzero]

/-! ### Decisions about a new child -/

namespace Watcher

/-- The watcher without what the children of a slot have left. -/
def forget (w : Watcher) (slot : Slot) : Watcher :=
  (w.setChild kInvalidPid slot).modifyState (fun _ => .new) slot

/-- A new child takes over nothing but the initial footprint. -/
theorem create_eq (w : Watcher) (respawn_time : UInt64) (pid : ℤ) (slot : Slot) :
    w.create respawn_time pid slot =
      ((w.forget slot).create respawn_time pid slot).withBaseline
        (w.state slot).initial_footprint slot := by
  cases slot with
  | worker => rfl
  | extension path =>
      have hinsert : (w.extensions_.insert path kInvalidPid).insert path pid =
          w.extensions_.insert path pid := by
        ext key
        simp only [Std.ExtTreeMap.getElem?_insert]
        split <;> rfl
      simp only [create, renew, resetCounters, withBaseline, forget, setChild, modifyState, hinsert,
        Function.update_self, Function.update_idem]
      rfl

theorem state_forget (w : Watcher) (slot : Slot) : (w.forget slot).state slot = .new :=
  state_modifyState_same ..

theorem withBaseline_withBaseline (w : Watcher) (first second : UInt64) (slot : Slot) :
    (w.withBaseline first slot).withBaseline second slot = w.withBaseline second slot := by
  rw [withBaseline, withBaseline, modifyState_modifyState]
  rfl

theorem create_child (w : Watcher) (respawn_time : UInt64) (pid : ℤ) (slot : Slot) :
    (w.create respawn_time pid slot).child slot = some pid := by
  rw [create, renew, resetCounters, child_modifyState]
  cases slot with
  | worker => rfl
  | extension path => exact Std.ExtTreeMap.getElem?_insert_self

theorem create_state (w : Watcher) (respawn_time : UInt64) (pid : ℤ) (slot : Slot) :
    (w.create respawn_time pid slot).state slot = (w.state slot).resetCounters respawn_time := by
  rw [create, renew, resetCounters, state_modifyState_same]
  cases slot <;> rfl

/-- A process that no slot has. -/
def NewPid (w : Watcher) (pid : ℤ) : Prop :=
  pid ≠ kInvalidPid ∧ pid ≠ w.worker_ ∧ ∀ path : String, w.extensions_[path]? ≠ some pid

theorem exists_newPid (w : Watcher) : ∃ pid, w.NewPid pid := by
  obtain ⟨pid, hpid⟩ := Infinite.exists_notMem_finset
    (insert kInvalidPid (insert w.worker_ (w.extensions_.toList.map Prod.snd).toFinset))
  simp only [Finset.mem_insert, List.mem_toFinset, List.mem_map, not_or] at hpid
  refine ⟨pid, hpid.1, hpid.2.1, ?_⟩
  intro path hpath
  exact hpid.2.2 ⟨(path, pid), Std.ExtTreeMap.mem_toList_iff_getElem?_eq_some.2 hpath, rfl⟩

theorem getExtensionPath_of_unique {w : Watcher} {pid : ℤ} {path : String}
    (hpath : w.extensions_[path]? = some pid)
    (hunique : ∀ path', w.extensions_[path']? = some pid → path' = path) :
    w.getExtensionPath pid = path := by
  rw [getExtensionPath]
  cases hfind : w.extensions_.toList.find? fun extension => decide (extension.2 = pid) with
  | none =>
      have hmem := Std.ExtTreeMap.mem_toList_iff_getElem?_eq_some.2 hpath
      simpa using List.find?_eq_none.1 hfind _ hmem
  | some extension =>
      have hpid : extension.2 = pid := by simpa using List.find?_some hfind
      have hmem :=
        Std.ExtTreeMap.mem_toList_iff_getElem?_eq_some.1 (List.mem_of_find?_eq_some hfind)
      exact hunique _ (hmem.trans (congrArg some hpid))

theorem create_getState {w : Watcher} {pid : ℤ} (h : w.NewPid pid) (respawn_time : UInt64)
    (slot : Slot) : (w.create respawn_time pid slot).getState pid = slot := by
  rw [create, renew, resetCounters, getState_modifyState]
  cases slot with
  | worker => exact if_pos rfl
  | extension path =>
      have hpath : (w.setChild pid (.extension path)).getExtensionPath pid = path := by
        refine getExtensionPath_of_unique Std.ExtTreeMap.getElem?_insert_self ?_
        intro path' hpath'
        rw [setChild, Std.ExtTreeMap.getElem?_insert] at hpath'
        split at hpath'
        · exact (Std.LawfulEqCmp.compare_eq_iff_eq.1 ‹_›).symm
        · exact absurd hpath' (h.2.2 path')
      rw [getState, hpath]
      exact if_neg h.2.1

end Watcher

def Event.creates (slot : Slot) : Event → Bool
  | .create slot' _ _ => slot' = slot
  | _ => false

/-- The decisions about the current child of a slot, until another one is created. -/
def verdicts (slot : Slot) (w : Watcher) (after : List Event) : List Status :=
  (outputs (step flags currentPid) w (after.takeWhile fun event => !event.creates slot)).filterMap
    fun decision => (decision.filter (·.1 = slot)).map Prod.snd

/-! ### Telling two baselines apart -/

/-- A child that used no CPU time, with the text of its resident size. -/
def idleSample (resident_size : String) : Sample :=
  ⟨processRow (toText currentPid.toUInt32.toNat) "0" "0" resident_size, ⟨0, 0, 0, 0⟩⟩

theorem readCounters_idleSample {resident_size : String} {z : ℤ} (h : stoll resident_size = .ok z) :
    readCounters (idleSample currentPid resident_size).row =
      { parent := some currentPid, user_time := 0, system_time := 0,
        footprint := some (UInt64.ofInt z), thrown := false } := by
  have hpid : Int32.ofInt (currentPid.toUInt32.toNat : ℤ) = currentPid := by
    rw [Int32.ofInt_eq_ofNat]
    exact Int32.toBitVec.inj (by simp)
  have hparent : counter (idleSample currentPid resident_size).row "parent" =
      some (currentPid.toUInt32.toNat : ℤ) := by
    have hlt : currentPid.toUInt32.toNat < 2 ^ 63 :=
      Nat.lt_trans currentPid.toUInt32.toNat_lt (by decide)
    have hread : counter (idleSample currentPid resident_size).row "parent" =
      some ((stoll (toText currentPid.toUInt32.toNat)).toOption.getD 0) := rfl
    rw [hread, stoll_toText, if_pos hlt]
    rfl
  have htime : counter (idleSample currentPid resident_size).row "user_time" = some 0 := rfl
  have htime' : counter (idleSample currentPid resident_size).row "system_time" = some 0 := rfl
  have hsize : counter (idleSample currentPid resident_size).row "resident_size" = some z := by
    have hread : counter (idleSample currentPid resident_size).row "resident_size" =
      some ((stoll resident_size).toOption.getD 0) := rfl
    rw [hread, h]
    rfl
  simp only [readCounters, hparent, htime, htime', hsize, hpid]

theorem getChange_idleSample {resident_size : String} {z : ℤ} (h : stoll resident_size = .ok z)
    (respawn_time baseline : UInt64) :
    getChange flags ⟨0, 0, 0, respawn_time, baseline⟩ (idleSample currentPid resident_size) =
      (⟨0, 0, 0, respawn_time, if baseline = 0 then UInt64.ofInt z else baseline⟩,
        ⟨0, postLaunch (UInt64.ofInt z) (if baseline = 0 then UInt64.ofInt z else baseline),
          checkInterval flags, currentPid⟩) := by
  have hidle : ¬ (UInt64.ofInt 0 - 0 + (UInt64.ofInt 0 - 0) > cpuLimit flags) := by
    have hzero : UInt64.ofInt 0 - 0 + (UInt64.ofInt 0 - 0) = 0 := rfl
    rw [hzero]
    simp
  simp only [getChange, readCounters_idleSample currentPid h, hidle, if_false, Option.getD_some]
  rfl

theorem judge_idle (footprint iv : UInt64) (parent : Int32) :
    judge flags ⟨0, footprint, iv, parent⟩ =
      if (memoryLimitBytes flags).toNat < footprint.toNat then
        ⟨1, "Memory limits exceeded: " ++ toText footprint.toNat⟩
      else ⟨0, "OK"⟩ := by
  have hcycles : exceededCyclesLimit flags ⟨0, footprint, iv, parent⟩ = false := rfl
  simp only [judge, hcycles, exceededMemoryLimit, Bool.false_eq_true, if_false]
  by_cases hzero : footprint = 0
  · simp [hzero]
  · simp [hzero, UInt64.lt_iff_toNat_lt]

/-- What is decided about an idle child that fills the address space. -/
def fullVerdict (baseline : UInt64) : Status :=
  judge flags ⟨0, postLaunch (UInt64.ofInt (-1)) baseline, checkInterval flags, currentPid⟩

theorem postLaunch_full (baseline : UInt64) :
    (postLaunch (UInt64.ofInt (-1)) baseline).toNat = 2 ^ 64 - 1 - baseline.toNat := by
  have hfull : (UInt64.ofInt (-1)).toNat = 2 ^ 64 - 1 := rfl
  have hlt := baseline.toNat_lt
  have hle : baseline ≤ UInt64.ofInt (-1) := by
    rw [UInt64.le_iff_toNat_le, hfull]
    omega
  rw [postLaunch, if_neg (UInt64.not_lt.2 hle), UInt64.toNat_sub_of_le _ _ hle, hfull]

theorem fullVerdict_ne {low high : UInt64} (hne : low ≠ high) (hroom : ¬ NoRoomAbove flags low) :
    fullVerdict flags currentPid low ≠ fullVerdict flags currentPid high := by
  have hne' : low.toNat ≠ high.toNat := fun h => hne (UInt64.toNat_inj.1 h)
  have hlow := low.toNat_lt
  have hhigh := high.toNat_lt
  rw [NoRoomAbove] at hroom
  rw [fullVerdict, fullVerdict, judge_idle, judge_idle, postLaunch_full, postLaunch_full,
    if_pos (by omega)]
  split_ifs with hexceeds
  · intro heq
    have htext := (String.append_right_inj _).1 (congrArg Status.message heq)
    have hnum := toText_inj.1 htext
    omega
  · intro heq
    cases heq

/-- Two samples of an idle child whose memory first is small and then fills the address space. -/
def probe (slot : Slot) (resident_size : String) : List Event :=
  [.check slot (some (idleSample currentPid resident_size)),
    .check slot (some (idleSample currentPid "-1"))]

theorem step_idle {w : Watcher} {slot : Slot} {pid : ℤ} (hchild : w.child slot = some pid)
    (hvalid : pid ≠ kInvalidPid) (hget : w.getState pid = slot) {respawn_time baseline : UInt64}
    (hstate : w.state slot = ⟨0, 0, 0, respawn_time, baseline⟩) {resident_size : String} {z : ℤ}
    (h : stoll resident_size = .ok z) :
    step flags currentPid w (.check slot (some (idleSample currentPid resident_size))) =
      (w.modifyState (fun _ => ⟨0, 0, 0, respawn_time,
          if baseline = 0 then UInt64.ofInt z else baseline⟩) slot,
        some (slot, judge flags
          ⟨0, postLaunch (UInt64.ofInt z) (if baseline = 0 then UInt64.ofInt z else baseline),
            checkInterval flags, currentPid⟩)) := by
  simp only [step, hchild, isChildSane, if_neg hvalid, hget, hstate,
    getChange_idleSample flags currentPid h, ne_eq, not_true_eq_false, if_false]

theorem verdicts_probe {w : Watcher} {slot : Slot} {pid : ℤ} (hchild : w.child slot = some pid)
    (hvalid : pid ≠ kInvalidPid) (hget : w.getState pid = slot) {respawn_time baseline : UInt64}
    (hstate : w.state slot = ⟨0, 0, 0, respawn_time, baseline⟩) {resident_size : String} {z : ℤ}
    (h : stoll resident_size = .ok z) (hne : UInt64.ofInt z ≠ 0) :
    (verdicts flags currentPid slot w (probe currentPid slot resident_size))[1]? =
      some (fullVerdict flags currentPid (if baseline = 0 then UInt64.ofInt z else baseline)) := by
  have hfirst := step_idle flags currentPid hchild hvalid hget hstate h
  have hne' : (if baseline = 0 then UInt64.ofInt z else baseline) ≠ 0 := by
    split_ifs with hzero
    · exact hne
    · exact hzero
  have hnext : (w.modifyState (fun _ => ⟨0, 0, 0, respawn_time,
      if baseline = 0 then UInt64.ofInt z else baseline⟩) slot).state slot =
        ⟨0, 0, 0, respawn_time, if baseline = 0 then UInt64.ofInt z else baseline⟩ :=
    w.state_modifyState_same _ slot
  have hfull : stoll "-1" = .ok (-1) := rfl
  have hsecond := step_idle flags currentPid ((w.child_modifyState _ slot slot).trans hchild) hvalid
    ((w.getState_modifyState _ slot pid).trans hget) hnext hfull
  simp only [verdicts, probe, List.takeWhile_cons, Event.creates, Bool.not_false, if_true,
    List.takeWhile_nil, outputs_cons, hfirst, hsecond, outputs_nil, if_neg hne']
  simp [fullVerdict]

theorem memoryLimitBytes_mod : (memoryLimitBytes flags).toNat % 2 ^ 20 = 0 := by
  have hbytes : (1024 : UInt64).toNat = 1024 := rfl
  rw [memoryLimitBytes, UInt64.toNat_mul, UInt64.toNat_mul, hbytes]
  omega

/-- A new child of a slot that is fresh but for a baseline that was taken over. -/
theorem verdicts_probe_create {w : Watcher} {slot : Slot} (hstate : w.state slot = .new) {pid : ℤ}
    (hnew : w.NewPid pid) (respawn_time baseline : UInt64) {resident_size : String} {z : ℤ}
    (h : stoll resident_size = .ok z) (hne : UInt64.ofInt z ≠ 0) :
    (verdicts flags currentPid slot ((w.create respawn_time pid slot).withBaseline baseline slot)
        (probe currentPid slot resident_size))[1]? =
      some (fullVerdict flags currentPid (if baseline = 0 then UInt64.ofInt z else baseline)) := by
  have hchild :
      ((w.create respawn_time pid slot).withBaseline baseline slot).child slot = some pid :=
    (Watcher.child_modifyState ..).trans (w.create_child respawn_time pid slot)
  have hget : ((w.create respawn_time pid slot).withBaseline baseline slot).getState pid = slot :=
    (Watcher.getState_modifyState ..).trans (Watcher.create_getState hnew respawn_time slot)
  have hcreated : ((w.create respawn_time pid slot).withBaseline baseline slot).state slot =
      ⟨0, 0, 0, respawn_time, baseline⟩ := by
    rw [Watcher.withBaseline, Watcher.state_modifyState_same, Watcher.create_state, hstate]
    rfl
  exact verdicts_probe flags currentPid hchild hnew.1 hget hcreated h hne

theorem exists_verdicts_ne {w : Watcher} {slot : Slot} (hstate : w.state slot = .new) {pid : ℤ}
    (hnew : w.NewPid pid) {low high : UInt64} (hlt : low < high)
    (hroom : low ≠ 0 → ¬ NoRoomAbove flags low) :
    ∃ after, verdicts flags currentPid slot ((w.create 0 pid slot).withBaseline low slot) after ≠
      verdicts flags currentPid slot ((w.create 0 pid slot).withBaseline high slot) after := by
  -- The first sample sets a missing baseline to a footprint that is not the other one's.
  obtain ⟨resident_size, z, hread, hne, hhigh, hsmall⟩ : ∃ resident_size z,
      stoll resident_size = .ok z ∧ UInt64.ofInt z ≠ 0 ∧ UInt64.ofInt z ≠ high ∧
        (UInt64.ofInt z).toNat ≤ 2 := by
    by_cases hone : high = 1
    · exact ⟨"2", 2, rfl, by decide, by rw [hone]; decide, by decide⟩
    · exact ⟨"1", 1, rfl, by decide, fun h => hone h.symm, by decide⟩
  have hhigh0 : high ≠ 0 := fun h => UInt64.not_lt_zero (h ▸ hlt)
  have hdiffer : fullVerdict flags currentPid (if low = 0 then UInt64.ofInt z else low) ≠
      fullVerdict flags currentPid high := by
    apply fullVerdict_ne
    · split_ifs
      · exact hhigh
      · exact UInt64.ne_of_lt hlt
    · split_ifs with hzero
      · have hmod := memoryLimitBytes_mod flags
        have hlimit := (memoryLimitBytes flags).toNat_lt
        rw [NoRoomAbove]
        omega
      · exact hroom hzero
  refine ⟨probe currentPid slot resident_size, ?_⟩
  intro heq
  have hlow := verdicts_probe_create flags currentPid hstate hnew 0 low hread hne
  rw [heq, verdicts_probe_create flags currentPid hstate hnew 0 high hread hne,
    if_neg hhigh0] at hlow
  exact hdiffer (Option.some.inj hlow).symm

/-- The baselines that two runs leave for a new child make no difference to the decisions. -/
def SameBaseline (first second : UInt64) : Prop :=
  first = second ∨
    (first ≠ 0 ∧ NoRoomAbove flags first) ∧ second ≠ 0 ∧ NoRoomAbove flags second

theorem verdicts_eq_of_sameBaseline {w : Watcher} {slot : Slot} {first second : UInt64}
    (h : SameBaseline flags first second) (after : List Event) :
    verdicts flags currentPid slot (w.withBaseline first slot) after =
      verdicts flags currentPid slot (w.withBaseline second slot) after := by
  rcases h with rfl | ⟨⟨hne, hroom⟩, hne', hroom'⟩
  · rfl
  · have hrelated : ∀ events, outputs (step flags currentPid) (w.withBaseline first slot) events =
        outputs (step flags currentPid) (w.withBaseline second slot) events := by
      intro events
      refine outputs_eq_of_related (step flags currentPid) (R := fun v v' : Watcher =>
        (v.state slot).initial_footprint = first ∧ v' = v.withBaseline second slot)
        ?_ ⟨?_, (w.withBaseline_withBaseline first second slot).symm⟩ events
      · rintro v _ event ⟨rfl, rfl⟩
        rw [step_withBaseline flags currentPid hne hroom hne' hroom', step_initial_footprint,
          if_neg hne]
        exact ⟨⟨rfl, rfl⟩, rfl⟩
      · rw [Watcher.withBaseline, Watcher.state_modifyState_same]
        rfl
    rw [verdicts, verdicts, hrelated]

theorem SameBaseline.symm {first second : UInt64} (h : SameBaseline flags first second) :
    SameBaseline flags second first :=
  h.imp Eq.symm And.symm

/-- A smaller baseline that makes a difference leaves room above it. -/
theorem room_of_not_sameBaseline {low high : UInt64} (hlt : low < high)
    (h : ¬ SameBaseline flags low high) (hne : low ≠ 0) : ¬ NoRoomAbove flags low := by
  intro hroom
  have hroom' : NoRoomAbove flags high :=
    hroom.trans (Nat.add_le_add_right (UInt64.lt_iff_toNat_lt.1 hlt).le _)
  exact h (Or.inr ⟨⟨hne, hroom⟩, fun hzero => UInt64.not_lt_zero (hzero ▸ hlt), hroom'⟩)

theorem sameBaseline_of_verdicts_eq {w : Watcher} {slot : Slot} (hstate : w.state slot = .new)
    {first second : UInt64}
    (h : ∀ pid after,
      verdicts flags currentPid slot ((w.create 0 pid slot).withBaseline first slot) after =
        verdicts flags currentPid slot ((w.create 0 pid slot).withBaseline second slot) after) :
    SameBaseline flags first second := by
  obtain ⟨pid, hnew⟩ := w.exists_newPid
  by_contra hbaseline
  rcases Nat.lt_trichotomy first.toNat second.toNat with hlt | heq | hlt
  · obtain ⟨after, hne⟩ := exists_verdicts_ne flags currentPid hstate hnew hlt
      (room_of_not_sameBaseline flags hlt hbaseline)
    exact hne (h pid after)
  · exact hbaseline (Or.inl (UInt64.toNat_inj.1 heq))
  · obtain ⟨after, hne⟩ := exists_verdicts_ne flags currentPid hstate hnew hlt
      (room_of_not_sameBaseline flags hlt fun hsymm => hbaseline (hsymm.symm flags))
    exact hne (h pid after).symm

section Runs

variable (before before' : List Event) (slot : Slot)

/-- The watcher after a history from its start. -/
def watcherAfter : Watcher := stateAfter (step flags currentPid) .new before

/-- The two histories leave everything alike but what the children of the slot have left. -/
def DifferByChildren : Prop :=
  (watcherAfter flags currentPid before).forget slot =
    (watcherAfter flags currentPid before').forget slot

/-- A new child of the slot is judged alike after both histories, whatever follows. -/
def JudgedAlike : Prop :=
  ∀ respawn_time pid after,
    verdicts flags currentPid slot
        ((watcherAfter flags currentPid before).create respawn_time pid slot) after =
      verdicts flags currentPid slot
        ((watcherAfter flags currentPid before').create respawn_time pid slot) after

/-- The initial footprint that the samples of a history leave for the slot. -/
def leftBaseline : UInt64 := firstFootprint (footprints flags currentPid slot .new before)

theorem watcherAfter_initial_footprint :
    ((watcherAfter flags currentPid before).state slot).initial_footprint =
      leftBaseline flags currentPid before slot := by
  have hnew : (Watcher.new.state slot).initial_footprint = 0 := by
    cases slot <;> rfl
  rw [watcherAfter, stateAfter_initial_footprint, if_pos hnew]
  rfl

variable {before before' slot}

/-- A new child is judged alike exactly when the samples of the children before it leave the
same baseline, or leave no room for the memory limit in both runs. -/
theorem judgedAlike_iff (hdiffer : DifferByChildren flags currentPid before before' slot) :
    JudgedAlike flags currentPid before before' slot ↔
      SameBaseline flags (leftBaseline flags currentPid before slot)
        (leftBaseline flags currentPid before' slot) := by
  rw [← watcherAfter_initial_footprint, ← watcherAfter_initial_footprint]
  rw [DifferByChildren] at hdiffer
  simp only [JudgedAlike]
  generalize watcherAfter flags currentPid before = w at hdiffer ⊢
  generalize watcherAfter flags currentPid before' = w' at hdiffer ⊢
  constructor
  · intro halike
    have hcreated : ∀ pid after,
        verdicts flags currentPid slot (((w.forget slot).create 0 pid slot).withBaseline
            (w.state slot).initial_footprint slot) after =
          verdicts flags currentPid slot (((w.forget slot).create 0 pid slot).withBaseline
            (w'.state slot).initial_footprint slot) after := by
      intro pid after
      rw [← w.create_eq, hdiffer, ← w'.create_eq]
      exact halike 0 pid after
    exact sameBaseline_of_verdicts_eq flags currentPid (w.state_forget slot) hcreated
  · intro hbaseline respawn_time pid after
    rw [w.create_eq, w'.create_eq, hdiffer]
    exact verdicts_eq_of_sameBaseline flags currentPid hbaseline after

end Runs

/-- A worker with a process id, and a sample of it with a user time and a resident size. -/
def sampledWorker (user_time resident_size : String) : List Event :=
  [.create .worker 100 10,
    .check .worker (some ⟨processRow "1" user_time "0" resident_size, ⟨0, 0, 0, 0⟩⟩)]

theorem judgedAlike_of_idle_and_busy :
    JudgedAlike defaultFlags 1 (sampledWorker "0" "10000000") (sampledWorker "9000" "10000000")
      .worker :=
  (judgedAlike_iff defaultFlags 1 rfl).2 (Or.inl (by decide))

/-- A worker of 1.1 GB is stopped after one of 10 MB, and is sane after one of 1 GB. -/
theorem judged_by_earlier_children :
    DifferByChildren defaultFlags 1 (sampledWorker "0" "10000000") (sampledWorker "0" "1000000000")
        .worker ∧
      ¬ JudgedAlike defaultFlags 1 (sampledWorker "0" "10000000") (sampledWorker "0" "1000000000")
        .worker := by
  refine ⟨rfl, ?_⟩
  intro h
  have hverdicts := h 200 11
    [.check .worker (some ⟨processRow "1" "0" "0" "1100000000", ⟨0, 0, 0, 0⟩⟩)]
  revert hverdicts
  decide

end Osquery.Watchdog.Respawn
