import Mathlib.Data.List.TakeWhile

/-!
# The longest beginning of a class

A list that is put together from elements of a class and a rest that does not start with one is
taken apart at the rest again.
-/

namespace Osquery.Foundation.LeadingRuns

variable {α : Type*} {p : α → Bool} {xs ys : List α}

/-- A list that starts with an element outside the class, or is empty. -/
def Stops (p : α → Bool) (ys : List α) : Prop := ∀ y ∈ ys.head?, p y = false

theorem stops_cons {y : α} (hy : p y = false) : Stops p (y :: ys) := by
  rintro z hz
  obtain rfl := Option.some.inj hz
  exact hy

theorem takeWhile_append (hxs : ∀ x ∈ xs, p x = true) (hys : Stops p ys) :
    (xs ++ ys).takeWhile p = xs := by
  rw [List.takeWhile_append_of_pos hxs]
  cases ys with
  | nil => rw [List.takeWhile_nil, List.append_nil]
  | cons y ys =>
      rw [List.takeWhile_cons_of_neg (by simp [hys y rfl]), List.append_nil]

theorem dropWhile_append (hxs : ∀ x ∈ xs, p x = true) (hys : Stops p ys) :
    (xs ++ ys).dropWhile p = ys := by
  rw [List.dropWhile_append_of_pos hxs]
  cases ys with
  | nil => rfl
  | cons y ys => exact List.dropWhile_cons_of_neg (by simp [hys y rfl])

end Osquery.Foundation.LeadingRuns
