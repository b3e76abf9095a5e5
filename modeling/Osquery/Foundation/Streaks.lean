import Mathlib.Data.List.Induction

/-!
# Streaks and excesses

The streak of a history is the number of consecutive elements at its end that are hits,
where each element is judged against the elements before it. The excess of a history is a counter
that hits raise and the other elements lower, but not below zero. It is the largest surplus of
hits over the others at the end of the history.
-/

namespace Osquery.Foundation.Streaks

variable {α : Type*} (hit : List α → α → Prop) [∀ before x, Decidable (hit before x)]

/-- The streak of a history given with its newest element first. -/
def streakOfReversed : List α → ℕ
  | [] => 0
  | x :: older => if hit older.reverse x then streakOfReversed older + 1 else 0

def streak (history : List α) : ℕ := streakOfReversed hit history.reverse

@[simp] theorem streak_nil : streak hit [] = 0 := rfl

theorem streak_concat (before : List α) (x : α) :
    streak hit (before ++ [x]) = if hit before x then streak hit before + 1 else 0 := by
  rw [streak, List.reverse_append, List.reverse_singleton, List.singleton_append,
    streakOfReversed, List.reverse_reverse]
  rfl

theorem streak_concat_ne_zero {before : List α} {x : α} :
    streak hit (before ++ [x]) ≠ 0 ↔ hit before x := by
  rw [streak_concat]
  split <;> simp_all

/-! ### Excesses -/

section Excess

variable {hit : α → Bool} {history : List α} {k : ℕ}

def excess (hit : α → Bool) (history : List α) : ℕ :=
  history.foldl (fun count x => if hit x then count + 1 else count - 1) 0

theorem excess_concat (hit : α → Bool) (before : List α) (x : α) :
    excess hit (before ++ [x]) =
      if hit x then excess hit before + 1 else excess hit before - 1 := by
  rw [excess, List.foldl_append]
  rfl

/-- There are so many more hits than other elements. -/
def Surplus (hit : α → Bool) (k : ℕ) (stretch : List α) : Prop :=
  k + stretch.countP (fun x => !hit x) ≤ stretch.countP hit

theorem surplus_nil : Surplus hit k [] ↔ k = 0 := Nat.le_zero

theorem surplus_concat_of_hit {stretch : List α} {x : α} (hx : hit x = true) :
    Surplus hit (k + 1) (stretch ++ [x]) ↔ Surplus hit k stretch := by
  simp only [Surplus, List.countP_append, List.countP_singleton, hx, if_true, Bool.not_true,
    Bool.false_eq_true, if_false]
  omega

theorem surplus_concat_of_not_hit {stretch : List α} {x : α} (hx : hit x = false) :
    Surplus hit k (stretch ++ [x]) ↔ Surplus hit (k + 1) stretch := by
  simp only [Surplus, List.countP_append, List.countP_singleton, hx, Bool.not_false, if_true,
    Bool.false_eq_true, if_false]
  omega

/-- At the end of a longer history there is no element, or the new one. -/
theorem exists_surplus_concat {before : List α} {x : α} :
    (∃ recent, recent <:+ before ++ [x] ∧ Surplus hit k recent) ↔
      k = 0 ∨ ∃ recent, recent <:+ before ∧ Surplus hit k (recent ++ [x]) := by
  constructor
  · rintro ⟨recent, hrecent, hsurplus⟩
    obtain rfl | ⟨earlier, rfl, hearlier⟩ := List.suffix_concat_iff.mp hrecent
    · exact .inl (surplus_nil.mp hsurplus)
    · exact .inr ⟨earlier, hearlier, hsurplus⟩
  · rintro (rfl | ⟨recent, hrecent, hsurplus⟩)
    · exact ⟨[], List.nil_suffix, surplus_nil.mpr rfl⟩
    · exact ⟨recent ++ [x], List.suffix_concat_iff.mpr (.inr ⟨recent, rfl, hrecent⟩), hsurplus⟩

/-- The excess is the largest surplus at the end of the history. -/
theorem le_excess_iff :
    k ≤ excess hit history ↔ ∃ recent, recent <:+ history ∧ Surplus hit k recent := by
  induction history using List.reverseRecOn generalizing k with
  | nil =>
      constructor
      · intro hk
        exact ⟨[], List.suffix_refl [], surplus_nil.mpr (Nat.le_zero.mp hk)⟩
      · rintro ⟨recent, hrecent, hsurplus⟩
        rw [List.suffix_nil.mp hrecent] at hsurplus
        exact Nat.le_of_eq (surplus_nil.mp hsurplus)
  | append_singleton before x ih =>
      rw [excess_concat, exists_surplus_concat]
      cases hx : hit x with
      | true =>
          cases k with
          | zero => exact iff_of_true (Nat.zero_le _) (.inl rfl)
          | succ k =>
              simp only [surplus_concat_of_hit hx]
              rw [← ih, if_pos trivial, Nat.add_le_add_iff_right]
              exact (or_iff_right (Nat.succ_ne_zero k)).symm
      | false =>
          simp only [surplus_concat_of_not_hit hx]
          rw [← ih, if_neg Bool.false_ne_true]
          omega

/-- Some stretch has the surplus exactly if some earlier history had the excess. -/
theorem exists_surplus_iff :
    (∃ stretch, stretch <:+: history ∧ Surplus hit k stretch) ↔
      ∃ earlier, earlier <+: history ∧ k ≤ excess hit earlier := by
  constructor
  · rintro ⟨stretch, hstretch, hsurplus⟩
    obtain ⟨earlier, hsuffix, hearlier⟩ := List.infix_iff_suffix_prefix.mp hstretch
    exact ⟨earlier, hearlier, le_excess_iff.mpr ⟨stretch, hsuffix, hsurplus⟩⟩
  · rintro ⟨earlier, hearlier, hexcess⟩
    obtain ⟨stretch, hsuffix, hsurplus⟩ := le_excess_iff.mp hexcess
    exact ⟨stretch, List.infix_iff_suffix_prefix.mpr ⟨earlier, hsuffix, hearlier⟩, hsurplus⟩

end Excess

end Osquery.Foundation.Streaks
