import Mathlib.Data.List.Perm.Subperm
import Mathlib.Data.List.Sort

/-!
# Selecting the smallest elements

A selection moves the smallest elements of a list to its front, in any order.
When two sorted lists are to be searched for their `n` smallest elements, it is
enough to select among the first `n` of each.
-/

namespace Osquery.Foundation.Selection

variable {α κ : Type*} [LinearOrder κ]

/-- The smallest `n` elements of a list have been chosen, and the others rest. -/
structure Parts (key : α → κ) (n : ℕ) (l chosen rest : List α) : Prop where
  perm : (chosen ++ rest).Perm l
  length : chosen.length = n
  le : ∀ a ∈ chosen, ∀ b ∈ rest, key a ≤ key b

/-- A rearrangement of lists by a key after which no element behind a position is smaller than
one up to it. -/
structure NthElement (α κ : Type*) [LinearOrder κ] where
  arrange : (α → κ) → ℕ → List α → List α
  perm : ∀ key n l, (arrange key n l).Perm l
  le : ∀ key n l, n < l.length → ∀ a ∈ (arrange key n l).take (n + 1),
    ∀ b ∈ (arrange key n l).drop (n + 1), key a ≤ key b

/-- The elements up to a position have been chosen. -/
theorem NthElement.parts (nth : NthElement α κ) (key : α → κ) {n : ℕ} {l : List α}
    (hpos : 0 < n) (hlen : n ≤ l.length) :
    Parts key n l ((nth.arrange key (n - 1) l).take n) ((nth.arrange key (n - 1) l).drop n) := by
  have hn : n - 1 + 1 = n := Nat.sub_add_cancel hpos
  have hperm := nth.perm key (n - 1) l
  constructor
  · rw [List.take_append_drop]
    exact hperm
  · rw [List.length_take, hperm.length_eq]
    exact Nat.min_eq_left hlen
  · have hle := nth.le key (n - 1) l (by omega)
    rw [hn] at hle
    exact hle

/-- Of a sorted list, the beginning is not greater than the rest. -/
theorem le_of_mem_take_of_mem_drop {key : α → κ} {l : List α} {n : ℕ}
    (hl : l.Pairwise fun a b => key a ≤ key b) {a b : α} (ha : a ∈ l.take n)
    (hb : b ∈ l.drop n) : key a ≤ key b := by
  rw [← List.take_append_drop n l] at hl
  exact (List.pairwise_append.mp hl).2.2 a ha b hb

/-- Sorting is one way of selecting. -/
def bySorting (α κ : Type*) [LinearOrder κ] : NthElement α κ where
  arrange key _ l := l.mergeSort fun a b => decide (key a ≤ key b)
  perm _ _ l := List.mergeSort_perm l _
  le key n l _ a ha b hb := by
    have hsorted : (l.mergeSort fun a b => decide (key a ≤ key b)).Pairwise
        fun a b => decide (key a ≤ key b) = true := by
      apply List.pairwise_mergeSort
      · intro a b c hab hbc
        exact decide_eq_true (le_trans (of_decide_eq_true hab) (of_decide_eq_true hbc))
      · intro a b
        rcases le_total (key a) (key b) with h | h
        · rw [decide_eq_true h, Bool.true_or]
        · rw [decide_eq_true h, Bool.or_true]
    exact le_of_mem_take_of_mem_drop (hsorted.imp fun h => of_decide_eq_true h) ha hb

/-- Elements that were not fetched from a sorted list are not smaller than those chosen among
as many as were asked for. -/
theorem Parts.le_of_mem_drop {key : α → κ} {n : ℕ} {l fetched chosen rest : List α}
    (h : Parts key n fetched chosen rest) (hl : l.Pairwise fun a b => key a ≤ key b)
    (hnodup : (l.take n).Nodup) (hsub : ∀ x ∈ l.take n, x ∈ fetched) {a b : α}
    (ha : a ∈ chosen) (hb : b ∈ l.drop n) : key a ≤ key b := by
  by_contra hlt
  have hlt : key b < key a := not_le.mp hlt
  have hsmaller : ∀ x ∈ l.take n, key x < key a := fun x hx =>
    lt_of_le_of_lt (le_of_mem_take_of_mem_drop hl hx hb) hlt
  -- everything fetched from this list is smaller than `a`, so it was chosen, and `a` besides
  have hchosen : ∀ x ∈ l.take n, x ∈ chosen := by
    intro x hx
    have hmem := h.perm.mem_iff.mpr (hsub x hx)
    rcases List.mem_append.mp hmem with hmem | hmem
    · exact hmem
    · exact absurd (h.le a ha x hmem) (not_le.mpr (hsmaller x hx))
  have hall : ∀ x ∈ a :: l.take n, x ∈ chosen := List.forall_mem_cons.mpr ⟨ha, hchosen⟩
  have hdistinct : (a :: l.take n).Nodup :=
    List.nodup_cons.mpr ⟨fun hmem => lt_irrefl _ (hsmaller a hmem), hnodup⟩
  have hcount := (List.subperm_of_subset hdistinct hall).length_le
  have hlen : (l.take n).length = n := by
    have hpos := List.length_pos_of_mem hb
    rw [List.length_drop] at hpos
    rw [List.length_take]
    omega
  rw [List.length_cons, hlen, h.length] at hcount
  omega

/-- What was chosen among the first `n` elements of each of two sorted lists is the smallest
of both. -/
theorem Parts.le_of_not_mem {key : α → κ} {n : ℕ} {l m chosen rest : List α}
    (h : Parts key n (l.take n ++ m.take n) chosen rest)
    (hl : l.Pairwise fun a b => key a ≤ key b) (hm : m.Pairwise fun a b => key a ≤ key b)
    (hlnodup : l.Nodup) (hmnodup : m.Nodup) {a b : α} (ha : a ∈ chosen) (hb : b ∈ l ++ m)
    (hkept : b ∉ chosen) : key a ≤ key b := by
  have hfetched : b ∈ l.take n ++ m.take n → key a ≤ key b := by
    intro hmem
    rcases List.mem_append.mp (h.perm.mem_iff.mpr hmem) with hmem | hmem
    · exact absurd hmem hkept
    · exact h.le a ha b hmem
  rcases List.mem_append.mp hb with hb | hb
  · rw [← List.take_append_drop n l] at hb
    rcases List.mem_append.mp hb with hb | hb
    · exact hfetched (List.mem_append_left _ hb)
    · exact h.le_of_mem_drop hl (hlnodup.sublist (List.take_sublist _ _))
        (fun x hx => List.mem_append_left _ hx) ha hb
  · rw [← List.take_append_drop n m] at hb
    rcases List.mem_append.mp hb with hb | hb
    · exact hfetched (List.mem_append_right _ hb)
    · exact h.le_of_mem_drop hm (hmnodup.sublist (List.take_sublist _ _))
        (fun x hx => List.mem_append_right _ hx) ha hb

end Osquery.Foundation.Selection
