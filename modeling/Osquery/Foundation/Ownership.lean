import Mathlib.Logic.Function.Basic

/-!
# Things with one owner, recorded from both ends

Every thing has an owner or none, and every owner holds the things that it owns, each under a
name. The two records describe the same relation, and stay so when a thing is assigned to an
owner, with or without one before, when a thing is released, and when an owner gives up all
that it holds.
-/

namespace Osquery.Foundation

variable {δ ι ν : Type*}

/-- Who owns a thing, and what an owner holds. -/
structure Ownership (δ ι ν : Type*) where
  owner : δ → Option ι
  held : ι → δ → Option ν
  consistent : ∀ d i, owner d = some i ↔ held i d ≠ none

namespace Ownership

def nobody : Ownership δ ι ν where
  owner _ := none
  held _ _ := none
  consistent d i := by simp

variable (o : Ownership δ ι ν)

theorem held_eq_none {d : δ} {i : ι} (h : o.owner d ≠ some i) : o.held i d = none := by
  by_contra hheld
  exact h ((o.consistent d i).mpr hheld)

section Release

variable [DecidableEq δ]

/-- The thing has no owner any more. -/
def release (d : δ) : Ownership δ ι ν where
  owner := Function.update o.owner d none
  held i := Function.update (o.held i) d none
  consistent d' i := by
    by_cases h : d' = d
    · subst h
      simp
    · simp [h, o.consistent]

theorem owner_release (d d' : δ) :
    (o.release d).owner d' = if d' = d then none else o.owner d' :=
  Function.update_apply ..

theorem held_release (d d' : δ) (i : ι) :
    (o.release d).held i d' = if d' = d then none else o.held i d' :=
  Function.update_apply ..

/-- Releasing a thing without an owner changes nothing. -/
theorem release_eq_self {d : δ} (h : o.owner d = none) : o.release d = o := by
  have hheld : ∀ i, o.held i d = none := by
    intro i
    apply o.held_eq_none
    rw [h]
    exact (Option.some_ne_none i).symm
  have howner : (o.release d).owner = o.owner := Function.update_eq_self_iff.mpr h.symm
  have hheld' : (o.release d).held = o.held := by
    ext1 i
    exact Function.update_eq_self_iff.mpr (hheld i).symm
  cases o
  simp only [mk.injEq, release] at howner hheld' ⊢
  exact ⟨howner, hheld'⟩

end Release

section Owners

variable [DecidableEq ι]

/-- The owner holds nothing any more. -/
def abandon (i : ι) : Ownership δ ι ν where
  owner d := if o.owner d = some i then none else o.owner d
  held := Function.update o.held i fun _ => none
  consistent d j := by
    by_cases h : j = i
    · subst h
      simp
    · have hne : o.owner d = some i → o.owner d ≠ some j := by
        intro hi hj
        exact h (Option.some.inj (hj.symm.trans hi))
      rw [Function.update_of_ne h, ← o.consistent]
      grind

theorem owner_abandon (i : ι) (d : δ) :
    (o.abandon i).owner d = if o.owner d = some i then none else o.owner d := rfl

theorem held_abandon (i j : ι) (d : δ) :
    (o.abandon i).held j d = if j = i then none else o.held j d := by
  by_cases h : j = i
  · subst h
    simp [abandon]
  · simp [abandon, h]

variable [DecidableEq δ]

/-- The thing is taken from its owner and given to another one. -/
def assign (d : δ) (i : ι) (v : ν) : Ownership δ ι ν where
  owner := Function.update o.owner d (some i)
  held j := Function.update (o.held j) d (if j = i then some v else none)
  consistent d' j := by
    by_cases h : d' = d
    · subst h
      simp [eq_comm]
    · simp [h, o.consistent]

theorem owner_assign (d d' : δ) (i : ι) (v : ν) :
    (o.assign d i v).owner d' = if d' = d then some i else o.owner d' :=
  Function.update_apply ..

theorem held_assign (d d' : δ) (i j : ι) (v : ν) :
    (o.assign d i v).held j d' =
      if d' = d then (if j = i then some v else none) else o.held j d' :=
  Function.update_apply ..

end Owners

end Ownership

end Osquery.Foundation
