import Osquery.Config.Sources
import Osquery.EventPublishers.PathSet
import Osquery.FileEvents.Subscriber

/-!
# The paths that file events are shown for

Whenever the configuration changes, the subscriber resolves the patterns of the watched files and
appends the paths to its list, which is never cleared. So after a `configure` the list has the
paths of every configuration there was at one, and it is that of the current one exactly when no
path was lost on the way.

## Implementation notes

What a pattern resolves to is an input that does not change.
-/

namespace Osquery.FileEvents.IncludedPaths

open Config (Files addFile removeFiles)
open EventPublishers Monitoring

inductive Change
  | addFile (source category path : String)
  | removeFiles (source : String)
  | configure

/-- The watched files of the configuration, and the list of the subscriber. -/
structure State where
  files_ : Files
  included_path_list : List String

/-- The files that `Config::files` passes on, in the order of its maps. -/
def listedFiles (files_ : Files) : List String :=
  files_.toList.flatMap fun it => it.2.toList.flatMap fun category => category.2

section Configure

variable (fs : FileSystem) (resolveFilePattern : String → List String)

/-- The paths that the patterns of a configuration are resolved to. -/
def configuredPaths (files_ : Files) : List String :=
  (listedFiles files_).flatMap fun file => resolveFilePattern (replaceGlobWildcards fs file)

def configure (s : State) : State :=
  { s with
    included_path_list :=
      s.included_path_list ++ configuredPaths fs resolveFilePattern s.files_ }

def step (s : State) : Change → State
  | .addFile source category path => { s with files_ := addFile source category path s.files_ }
  | .removeFiles source => { s with files_ := removeFiles source s.files_ }
  | .configure => configure fs resolveFilePattern s

def stateAfter (changes : List Change) : State :=
  changes.foldl (step fs resolveFilePattern) ⟨∅, []⟩

theorem stateAfter_concat (before : List Change) (change : Change) :
    stateAfter fs resolveFilePattern (before ++ [change]) =
      step fs resolveFilePattern (stateAfter fs resolveFilePattern before) change := by
  rw [stateAfter, List.foldl_append]
  rfl

/-- The paths of the configuration that some changes lead to. -/
def pathsAfter (changes : List Change) : List String :=
  configuredPaths fs resolveFilePattern (stateAfter fs resolveFilePattern changes).files_

/-- The list has what was configured at any `configure` so far. -/
theorem mem_included_iff {changes : List Change} {path : String} :
    path ∈ (stateAfter fs resolveFilePattern changes).included_path_list ↔
      ∃ before, before ++ [.configure] <+: changes ∧
        path ∈ pathsAfter fs resolveFilePattern before := by
  induction changes using List.reverseRecOn with
  | nil => simp [stateAfter]
  | append_singleton changes change ih =>
      have hearlier : ∀ before, before ++ [Change.configure] <+: changes ++ [change] ↔
          before ++ [.configure] <+: changes ∨ before = changes ∧ change = .configure := by
        intro before
        rw [List.prefix_concat_iff, or_comm]
        simp [eq_comm]
      have hmem : path ∈ (stateAfter fs resolveFilePattern
            (changes ++ [change])).included_path_list ↔
          path ∈ (stateAfter fs resolveFilePattern changes).included_path_list ∨
            change = .configure ∧ path ∈ pathsAfter fs resolveFilePattern changes := by
        rw [stateAfter_concat]
        cases change with
        | addFile source category file => simp [step]
        | removeFiles source => simp [step]
        | configure => simp [step, configure, pathsAfter]
      rw [hmem, ih]
      constructor
      · rintro (⟨before, hbefore, hpath⟩ | ⟨rfl, hpath⟩)
        · exact ⟨before, (hearlier before).2 (.inl hbefore), hpath⟩
        · exact ⟨changes, (hearlier changes).2 (.inr ⟨rfl, rfl⟩), hpath⟩
      · rintro ⟨before, hbefore, hpath⟩
        rcases (hearlier before).1 hbefore with hbefore | ⟨rfl, rfl⟩
        · exact .inl ⟨before, hbefore, hpath⟩
        · exact .inr ⟨rfl, hpath⟩

/-- The list has the paths of the configuration, and what is reported depends on these alone. -/
structure FollowsConfiguration (s : State) : Prop where
  included : ∀ path, path ∈ s.included_path_list ↔
    path ∈ configuredPaths fs resolveFilePattern s.files_
  reported : ∀ flags uptime syscall_context,
    emitRowFromSyscallContext flags s.included_path_list uptime syscall_context =
      emitRowFromSyscallContext flags (configuredPaths fs resolveFilePattern s.files_) uptime
        syscall_context

theorem emitRow_congr {paths paths' : List String} (h : ∀ path, path ∈ paths ↔ path ∈ paths')
    (flags : Flags) (uptime : String) (syscall_context : SyscallContext) :
    emitRowFromSyscallContext flags paths uptime syscall_context =
      emitRowFromSyscallContext flags paths' uptime syscall_context := by
  have hcontains : ∀ path, paths.contains path = paths'.contains path := by
    intro path
    rw [Bool.eq_iff_iff, List.contains_iff_mem, List.contains_iff_mem, h]
  have hsame : isPathIncluded paths = isPathIncluded paths' := by
    funext row
    simp only [isPathIncluded, hcontains]
  rw [emitRowFromSyscallContext, emitRowFromSyscallContext, hsame]

/-- After each `configure` the list follows the configuration exactly when all that was configured
at an earlier one is still configured. -/
theorem followsConfiguration_iff (changes : List Change) :
    (∀ before, before ++ [.configure] <+: changes →
        FollowsConfiguration fs resolveFilePattern
          (stateAfter fs resolveFilePattern (before ++ [.configure]))) ↔
      ∀ earlier before, earlier ++ [.configure] <+: before → before ++ [.configure] <+: changes →
        pathsAfter fs resolveFilePattern earlier ⊆ pathsAfter fs resolveFilePattern before := by
  have hnow : ∀ before, configuredPaths fs resolveFilePattern
      (stateAfter fs resolveFilePattern (before ++ [.configure])).files_ =
        pathsAfter fs resolveFilePattern before := by
    intro before
    rw [stateAfter_concat]
    rfl
  constructor
  · intro h earlier before hearlier hbefore path hpath
    rw [← hnow, ← (h before hbefore).included, mem_included_iff]
    exact ⟨earlier, hearlier.trans (List.prefix_append _ _), hpath⟩
  · intro h before hbefore
    have hincluded : ∀ path, path ∈ (stateAfter fs resolveFilePattern
          (before ++ [.configure])).included_path_list ↔
        path ∈ configuredPaths fs resolveFilePattern
          (stateAfter fs resolveFilePattern (before ++ [.configure])).files_ := by
      intro path
      rw [hnow, mem_included_iff]
      constructor
      · rintro ⟨earlier, hearlier, hpath⟩
        rcases List.prefix_concat_iff.1 hearlier with heq | hearlier
        · rw [List.append_cancel_right heq] at hpath
          exact hpath
        · exact h earlier before hearlier hbefore hpath
      · intro hpath
        exact ⟨before, List.prefix_refl _, hpath⟩
    exact ⟨hincluded, emitRow_congr hincluded⟩

end Configure

/-- A file that is watched and then no longer stays on the list. -/
theorem removed_file_included :
    ¬ FollowsConfiguration ⟨id, id, fun _ => false⟩ (fun pattern => [pattern])
      (stateAfter ⟨id, id, fun _ => false⟩ (fun pattern => [pattern])
        [.addFile "config" "etc" "/etc/passwd", .configure, .removeFiles "config",
          .configure]) := by
  intro h
  have hstale := (h.included "/etc/passwd").1 (by decide +kernel)
  revert hstale
  decide +kernel

end Osquery.FileEvents.IncludedPaths
