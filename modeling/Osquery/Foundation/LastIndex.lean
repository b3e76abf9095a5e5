import Mathlib.Data.List.Basic

/-!
# The last index of an entry

An index of a list that grows at its end knows the last place of every entry. The place splits
the list, with no further such entry behind it.
-/

namespace Osquery.Foundation.LastIndex

variable {κ : Type*} [DecidableEq κ] (k : κ)

def lastIndex : List κ → Option Nat
  | [] => none
  | x :: xs =>
      match lastIndex xs with
      | some i => some (i + 1)
      | none => if x = k then some 0 else none

theorem lastIndex_concat (xs : List κ) (x : κ) :
    lastIndex k (xs ++ [x]) = if x = k then some xs.length else lastIndex k xs := by
  induction xs with
  | nil => rfl
  | cons y xs ih =>
      rw [List.cons_append, lastIndex, ih]
      by_cases h : x = k
      · simp [h]
      · simp [h, lastIndex]

variable {k}

theorem not_mem_of_lastIndex_eq_none {xs : List κ} (h : lastIndex k xs = none) : k ∉ xs := by
  induction xs with
  | nil => exact List.not_mem_nil
  | cons x xs ih =>
      rw [lastIndex] at h
      split at h
      · cases h
      · next hxs =>
          rw [ite_eq_right_iff] at h
          rintro (- | ⟨_, hmem⟩)
          · cases h rfl
          · exact ih hxs hmem

/-- The last place of an entry splits the list. -/
theorem eq_append_of_lastIndex_eq_some {xs : List κ} {i : Nat} (h : lastIndex k xs = some i) :
    ∃ before after, xs = before ++ k :: after ∧ before.length = i ∧ k ∉ after := by
  induction xs generalizing i with
  | nil => cases h
  | cons x xs ih =>
      rw [lastIndex] at h
      split at h
      · next j hj =>
          obtain ⟨before, after, rfl, rfl, hafter⟩ := ih hj
          obtain rfl := Option.some.inj h
          exact ⟨x :: before, after, rfl, rfl, hafter⟩
      · next hxs =>
          rw [Option.ite_none_right_eq_some] at h
          obtain ⟨rfl, h⟩ := h
          obtain rfl := Option.some.inj h
          exact ⟨[], xs, rfl, rfl, not_mem_of_lastIndex_eq_none hxs⟩

end Osquery.Foundation.LastIndex
