import Mathlib.Order.CompletePartialOrder
import Mathlib.Order.ConditionallyCompleteLattice.Basic

/-!
# Contributions of several sources

Every source has a latest content, and every content contributes an element of a join
semilattice. The total of the contents is the join of what they contribute, whatever their
order. A total that is changed in place by a new content is the new total only if what is
overridden was contributed by no one else, and what is left is contributed by someone else.
-/

namespace Osquery.Foundation.Contributions

variable {ι β : Type*}

/-! ### Latest contents -/

section Latest

variable [DecidableEq ι]

def without (source : ι) (contents : List (ι × β)) : List (ι × β) :=
  contents.filter fun c => c.1 ≠ source

/-- A source has a new content. -/
def replace (source : ι) (content : β) (contents : List (ι × β)) : List (ι × β) :=
  without source contents ++ [(source, content)]

theorem mem_without {source : ι} {contents : List (ι × β)} {c : ι × β} :
    c ∈ without source contents ↔ c ∈ contents ∧ c.1 ≠ source := by
  rw [without, List.mem_filter, decide_eq_true_eq]

theorem mem_replace {source : ι} {content : β} {contents : List (ι × β)} {c : ι × β} :
    c ∈ replace source content contents ↔
      c ∈ contents ∧ c.1 ≠ source ∨ c = (source, content) := by
  rw [replace, List.mem_append, mem_without, List.mem_singleton]

end Latest

/-! ### Totals -/

section Total

variable {α : Type*} [SemilatticeSup α] [OrderBot α] (f : β → α)

def total (contents : List (ι × β)) : α := contents.foldr (fun c a => f c.2 ⊔ a) ⊥

theorem total_append (contents contents' : List (ι × β)) :
    total f (contents ++ contents') = total f contents ⊔ total f contents' := by
  induction contents with
  | nil => exact (bot_sup_eq _).symm
  | cons c contents ih =>
      calc total f (c :: contents ++ contents')
          = f c.2 ⊔ total f (contents ++ contents') := rfl
        _ = f c.2 ⊔ (total f contents ⊔ total f contents') := by rw [ih]
        _ = total f (c :: contents) ⊔ total f contents' := (sup_assoc ..).symm

theorem total_replace [DecidableEq ι] (source : ι) (content : β) (contents : List (ι × β)) :
    total f (replace source content contents) = total f (without source contents) ⊔ f content := by
  rw [replace, total_append]
  exact congrArg _ (sup_bot_eq _)

theorem le_total {contents : List (ι × β)} {c : ι × β} (h : c ∈ contents) :
    f c.2 ≤ total f contents := by
  induction contents with
  | nil => cases h
  | cons d contents ih =>
      rcases List.mem_cons.mp h with rfl | h
      · exact le_sup_left
      · exact (ih h).trans le_sup_right

theorem total_le {contents : List (ι × β)} {a : α} (h : ∀ c ∈ contents, f c.2 ≤ a) :
    total f contents ≤ a := by
  induction contents with
  | nil => exact bot_le
  | cons c contents ih =>
      exact sup_le (h c (List.mem_cons_self ..))
        (ih fun d hd => h d (List.mem_cons_of_mem _ hd))

theorem mem_total {κ : Type*} {f : β → Set κ} {contents : List (ι × β)} {x : κ} :
    x ∈ total f contents ↔ ∃ c ∈ contents, x ∈ f c.2 := by
  induction contents with
  | nil => exact iff_of_false (Set.notMem_empty x) (by simp)
  | cons c contents ih =>
      have hcons : x ∈ total f (c :: contents) ↔ x ∈ f c.2 ∨ x ∈ total f contents := Iff.rfl
      rw [hcons, ih]
      simp only [List.mem_cons, exists_eq_or_imp]

end Total

/-! ### Totals that are overridden -/

section Override

variable {κ α : Type*} [SemilatticeSup α] [OrderBot α]

open Classical in
/-- The new elements in the place of the old ones, where there are new ones. -/
noncomputable def override (new old : κ → α) : κ → α := fun k => if new k = ⊥ then old k else new k

/-- What is left must be what the others contribute, and what is overridden must contain it. -/
theorem override_eq_sup_iff {new old others : κ → α} :
    override new old = others ⊔ new ↔
      ∀ k, (new k = ⊥ → old k = others k) ∧ (new k ≠ ⊥ → others k ≤ new k) := by
  rw [funext_iff]
  apply forall_congr'
  intro k
  rw [override, Pi.sup_apply]
  by_cases hnew : new k = ⊥
  · rw [if_pos hnew, hnew, sup_bot_eq]
    simp
  · rw [if_neg hnew, eq_comm, sup_eq_right]
    simp [hnew]

end Override

end Osquery.Foundation.Contributions
