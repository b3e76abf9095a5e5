import Mathlib.Data.List.Induction
import Mathlib.Data.List.Nodup

/-!
# The last change of every source

A history of assignments to sources, read as a list of the sources with their
present contents, in the order in which the sources last changed. An assignment
of the content that a source already has is no change.
-/

namespace Osquery.Foundation.LastChange

variable {α β : Type*} [DecidableEq α] [DecidableEq β]

/-- One assignment: a source that changes moves to the end. -/
def change (order : List (α × β)) (u : α × β) : List (α × β) :=
  if u ∈ order then order else order.filter (fun v => v.1 ≠ u.1) ++ [u]

/-- The present contents of the sources after a history. -/
def latest (history : List (α × β)) : List (α × β) := history.foldl change []

theorem latest_concat (history : List (α × β)) (u : α × β) :
    latest (history ++ [u]) = change (latest history) u := by
  rw [latest, List.foldl_append]
  rfl

theorem mem_change {order : List (α × β)} {u v : α × β} (h : v ∈ change order u) :
    v ∈ order ∨ v = u := by
  rw [change] at h
  split at h
  · exact Or.inl h
  · rcases List.mem_append.mp h with h | h
    · exact Or.inl (List.mem_filter.mp h).1
    · exact Or.inr (List.mem_singleton.mp h)

/-- Present contents were assigned. -/
theorem mem_of_mem_latest {history : List (α × β)} {v : α × β} (h : v ∈ latest history) :
    v ∈ history := by
  induction history using List.reverseRecOn with
  | nil => exact h
  | append_singleton rest u ih =>
      rw [latest_concat] at h
      rcases mem_change h with h | rfl
      · exact List.mem_append_left _ (ih h)
      · exact List.mem_append_right _ (List.mem_singleton.mpr rfl)

theorem nodup_change {order : List (α × β)} (h : (order.map Prod.fst).Nodup) (u : α × β) :
    ((change order u).map Prod.fst).Nodup := by
  rw [change]
  split
  · exact h
  · rw [List.map_append, List.map_cons, List.map_nil]
    apply List.Nodup.append
    · exact h.sublist (List.filter_sublist.map _)
    · exact List.nodup_singleton _
    · intro a ha ha'
      obtain ⟨v, hv, rfl⟩ := List.mem_map.mp ha
      have hne := (List.mem_filter.mp hv).2
      rw [List.mem_singleton.mp ha'] at hne
      simp at hne

/-- Every source has one present content. -/
theorem nodup_latest (history : List (α × β)) : ((latest history).map Prod.fst).Nodup := by
  induction history using List.reverseRecOn with
  | nil => exact List.nodup_nil
  | append_singleton rest u ih =>
      rw [latest_concat]
      exact nodup_change ih u

/-- A history that assigns to every source once is its own list of contents. -/
theorem latest_eq_self {history : List (α × β)} (h : (history.map Prod.fst).Nodup) :
    latest history = history := by
  induction history using List.reverseRecOn with
  | nil => rfl
  | append_singleton rest u ih =>
      rw [List.map_append, List.map_cons, List.map_nil] at h
      have hrest : (rest.map Prod.fst).Nodup := h.of_append_left
      have hfresh : ∀ v ∈ rest, v.1 ≠ u.1 := by
        intro v hv heq
        exact List.disjoint_of_nodup_append h (List.mem_map_of_mem hv)
          (List.mem_singleton.mpr heq)
      have hnot : u ∉ rest := fun hu => hfresh u hu rfl
      rw [latest_concat, ih hrest, change, if_neg hnot, List.filter_eq_self.mpr]
      intro v hv
      exact decide_eq_true (hfresh v hv)

/-- The list of contents is a history with the same contents. -/
theorem latest_latest (history : List (α × β)) : latest (latest history) = latest history :=
  latest_eq_self (nodup_latest history)

end Osquery.Foundation.LastChange
