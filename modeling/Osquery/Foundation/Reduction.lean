import Mathlib.Algebra.BigOperators.Group.List.Basic
import Mathlib.Algebra.Order.Group.Int
import Mathlib.Algebra.Ring.Int.Defs

/-!
# Lists that are reduced by an operation

A list that is not empty has a total under an associative and commutative operation. The
total of a list is not changed when an item at its end is put into another item instead.
Sums, least and greatest members are such totals.

## Implementation notes

The empty list has no total, so that no neutral element is needed. This is how the least and
the greatest member of a list are defined.
-/

namespace Osquery.Foundation.Reduction

variable {α : Type*} (op : α → α → α)

/-- The total of a list. -/
def total : List α → Option α
  | [] => none
  | a :: as => some (as.foldl op a)

/-- The total of two lists from the totals of each. -/
def join : Option α → Option α → Option α
  | none, b => b
  | some a, none => some a
  | some a, some b => some (op a b)

theorem min?_eq_total [Min α] (as : List α) : as.min? = total min as := by
  cases as <;> rfl

theorem max?_eq_total [Max α] (as : List α) : as.max? = total max as := by
  cases as <;> rfl

theorem sum_eq_total (as : List ℤ) : as.sum = (total (· + ·) as).getD 0 := by
  cases as with
  | nil => rfl
  | cons a as => simp [total, List.sum_eq_foldl]

section Associative

variable [Std.Associative op]

instance : Std.Associative (join op) where
  assoc a b c := by
    cases a with
    | none => rfl
    | some a =>
        cases b with
        | none => rfl
        | some b =>
            cases c with
            | none => rfl
            | some c => exact congrArg some (Std.Associative.assoc a b c)

theorem total_append (as bs : List α) :
    total op (as ++ bs) = join op (total op as) (total op bs) := by
  cases as with
  | nil => rfl
  | cons a as =>
      cases bs with
      | nil =>
          rw [List.append_nil]
          rfl
      | cons b bs =>
          rw [List.cons_append, total, List.foldl_append, List.foldl_cons, List.foldl_assoc]
          rfl

theorem total_cons (a : α) (as : List α) :
    total op (a :: as) = join op (some a) (total op as) :=
  total_append op [a] as

variable [Std.Commutative op]

instance : Std.Commutative (join op) where
  comm a b := by
    cases a with
    | none => cases b <;> rfl
    | some a =>
        cases b with
        | none => rfl
        | some b => exact congrArg some (Std.Commutative.comm a b)

/-- An item that is put into another one instead of the end of the list. -/
theorem total_put (as bs : List α) (a b : α) :
    total op (as ++ op a b :: bs) = total op (as ++ a :: bs ++ [b]) := by
  have hop : some (op a b) = join op (some a) (some b) := rfl
  have hlast : total op [b] = some b := rfl
  simp only [total_append, total_cons, hop, hlast]
  ac_rfl

/-- The order of a list does not matter. -/
theorem total_perm {as bs : List α} (h : as.Perm bs) : total op as = total op bs := by
  induction h with
  | nil => rfl
  | cons a _ ih => rw [total_cons, total_cons, ih]
  | swap a b as =>
      simp only [total_cons]
      ac_rfl
  | trans _ _ ih ih' => exact ih.trans ih'

end Associative

end Osquery.Foundation.Reduction
