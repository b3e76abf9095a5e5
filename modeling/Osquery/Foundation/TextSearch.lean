import Mathlib.Data.List.Infix

/-!
# The first occurrence of a pattern

The position of the first occurrence of a pattern in a text, as `std::search` finds it.
A pattern no proper end of which is also its beginning is found right after a text that
does not contain it.
-/

namespace Osquery.Foundation.TextSearch

variable {α : Type*} [DecidableEq α]

def find (pattern : List α) : List α → Option ℕ
  | [] => if pattern = [] then some 0 else none
  | x :: xs => if pattern <+: x :: xs then some 0 else (find pattern xs).map (· + 1)

theorem find_eq_some_iff {pattern text : List α} {k : ℕ} :
    find pattern text = some k ↔
      k ≤ text.length ∧ pattern <+: text.drop k ∧ ∀ j < k, ¬pattern <+: text.drop j := by
  induction text generalizing k with
  | nil =>
      rw [find]
      split
      · next hnil =>
          subst hnil
          constructor
          · intro h
            cases h
            simp
          · rintro ⟨hk, _, _⟩
            simp at hk
            rw [hk]
      · next hnil => simp [hnil]
  | cons x xs ih =>
      rw [find]
      split
      · next hstarts =>
          constructor
          · intro h
            cases h
            simpa using hstarts
          · rintro ⟨_, _, hfirst⟩
            cases k with
            | zero => rfl
            | succ k => exact absurd hstarts (hfirst 0 (Nat.succ_pos k))
      · next hstarts =>
          cases k with
          | zero => simp [hstarts]
          | succ k =>
              rw [Option.map_eq_some_iff]
              constructor
              · rintro ⟨i, hi, hik⟩
                obtain rfl := Nat.succ.inj hik
                obtain ⟨hlength, hfound, hfirst⟩ := ih.mp hi
                refine ⟨Nat.succ_le_succ hlength, hfound, ?_⟩
                intro j hj
                cases j with
                | zero => exact hstarts
                | succ j => exact hfirst j (Nat.lt_of_succ_lt_succ hj)
              · rintro ⟨hlength, hfound, hfirst⟩
                refine ⟨k, ih.mpr ⟨Nat.le_of_succ_le_succ hlength, hfound, ?_⟩, rfl⟩
                intro j hj
                exact hfirst (j + 1) (Nat.succ_lt_succ hj)

/-- An occurrence ends within the text. -/
theorem find_add_length_le {pattern text : List α} {k : ℕ} (h : find pattern text = some k) :
    k + pattern.length ≤ text.length := by
  obtain ⟨hk, hfound, _⟩ := find_eq_some_iff.mp h
  have hlength := hfound.length_le
  rw [List.length_drop] at hlength
  omega

/-- No proper end of the pattern is also its beginning. -/
def Unbordered (pattern : List α) : Prop :=
  ∀ j < pattern.length, 0 < j → ¬pattern.drop j <+: pattern

instance (pattern : List α) : Decidable (Unbordered pattern) :=
  inferInstanceAs (Decidable (∀ j < pattern.length, 0 < j → ¬pattern.drop j <+: pattern))

theorem find_append {pattern before : List α} (hborder : Unbordered pattern)
    (hbefore : ¬pattern <:+: before) (rest : List α) :
    find pattern (before ++ pattern ++ rest) = some before.length := by
  rw [find_eq_some_iff]
  refine ⟨by simp, by simp, ?_⟩
  intro j hj hstarts
  have hdrop : (before ++ pattern ++ rest).drop j = before.drop j ++ (pattern ++ rest) := by
    rw [List.append_assoc, List.drop_append_of_le_length (Nat.le_of_lt hj)]
  rw [hdrop] at hstarts
  by_cases hlong : pattern.length ≤ (before.drop j).length
  · apply hbefore
    have hinside := List.prefix_of_prefix_length_le hstarts (List.prefix_append _ _) hlong
    exact hinside.isInfix.trans (List.drop_suffix j before).isInfix
  · -- The occurrence would begin inside the text before and end in the pattern itself.
    have hstart := List.prefix_of_prefix_length_le (List.prefix_append _ _) hstarts
      (Nat.le_of_not_le hlong)
    obtain ⟨tail, htail⟩ := hstart
    have hlength : pattern.length = (before.drop j).length + tail.length := by
      rw [← htail, List.length_append]
    rw [List.length_drop] at hlength hlong
    apply hborder (before.length - j) (by omega) (by omega)
    have hpart : pattern.drop (before.length - j) = tail := by
      rw [← htail, ← List.length_drop, List.drop_left]
    rw [hpart]
    have hinner : before.drop j ++ tail <+: before.drop j ++ (pattern ++ rest) := by
      rw [htail]
      exact hstarts
    exact List.prefix_of_prefix_length_le ((List.prefix_append_right_inj _).mp hinner)
      (List.prefix_append _ _) (by omega)

/-- The characters of a text are checked one by one. -/
theorem forall_mem_of_all {p : Char → Prop} [DecidablePred p] {s : List Char}
    (h : s.all (fun c => decide (p c)) = true) : ∀ c ∈ s, p c := by
  simpa using h

end Osquery.Foundation.TextSearch
