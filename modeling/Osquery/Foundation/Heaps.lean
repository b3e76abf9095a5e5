import Mathlib.Data.List.Sort

/-!
# Heaps in a list

An element of a heap does not come after its parent, which stands at half its index. What the
functions for heaps promise is fixed for any comparison that is a strict weak order. They leave
open how the elements are arranged.
-/

namespace Osquery.Foundation.Heaps

variable {α : Type*} {comp comp' : α → α → Bool} {l : List α}

/-- The comparison is a strict weak order. -/
structure StrictWeak (comp : α → α → Bool) : Prop where
  asymm : ∀ {a b}, comp a b = true → comp b a = false
  negTrans : ∀ {a b c}, comp a b = false → comp b c = false → comp a c = false

theorem StrictWeak.irrefl (h : StrictWeak comp) (a : α) : comp a a = false := by
  cases haa : comp a a with
  | false => rfl
  | true =>
      rw [h.asymm haa] at haa
      cases haa

/-- The greater of two ranks comes first in the comparison. -/
theorem strictWeak_rank (rank : α → ℤ) :
    StrictWeak (fun a b => decide (rank a > rank b)) where
  asymm := by
    intro a b hab
    simp only [decide_eq_true_eq, decide_eq_false_iff_not] at hab ⊢
    omega
  negTrans := by
    intro a b c hab hbc
    simp only [decide_eq_false_iff_not] at hab hbc ⊢
    omega

/-- No parent comes before its child in the comparison. -/
def IsHeap (comp : α → α → Bool) (l : List α) : Prop :=
  ∀ i a b, 0 < i → l[(i - 1) / 2]? = some a → l[i]? = some b → comp a b = false

theorem isHeap_nil : IsHeap comp [] := by
  intro i a b _ ha _
  simp at ha

/-- The comparison matters for the elements only. -/
theorem IsHeap.congr (h : IsHeap comp l) (hcomp : ∀ a ∈ l, ∀ b ∈ l, comp a b = comp' a b) :
    IsHeap comp' l := by
  intro i a b hi ha hb
  rw [← hcomp a (List.mem_of_getElem? ha) b (List.mem_of_getElem? hb)]
  exact h i a b hi ha hb

/-- The front of a heap is not after any element. -/
theorem IsHeap.front {a : α} (hcomp : StrictWeak comp) (h : IsHeap comp (a :: l)) :
    ∀ b ∈ a :: l, comp a b = false := by
  have hindex : ∀ (i : ℕ) (b : α), (a :: l)[i]? = some b → comp a b = false := by
    intro i
    induction i using Nat.strongRecOn with
    | ind i ih =>
        intro b hb
        by_cases hi : i = 0
        · subst i
          obtain rfl := Option.some.inj hb
          exact hcomp.irrefl a
        · have hlength := (List.getElem?_eq_some_iff.mp hb).1
          have hparent : (i - 1) / 2 < (a :: l).length := by omega
          have hp := List.getElem?_eq_getElem hparent
          exact hcomp.negTrans (ih _ (by omega) _ hp) (h i _ b (by omega) hp hb)
  intro b hb
  obtain ⟨i, hi⟩ := List.getElem?_of_mem hb
  exact hindex i b hi

/-- A list in order is a heap. -/
theorem isHeap_of_pairwise (h : l.Pairwise fun a b => comp a b = false) : IsHeap comp l := by
  intro i a b hi ha hb
  obtain ⟨hparent, rfl⟩ := List.getElem?_eq_some_iff.mp ha
  obtain ⟨hchild, rfl⟩ := List.getElem?_eq_some_iff.mp hb
  exact List.pairwise_iff_getElem.mp h _ _ hparent hchild (by omega)

/-- The functions for heaps, with what they promise for a strict weak order. -/
structure HeapFunctions (α : Type*) where
  make_heap : (α → α → Bool) → List α → List α
  push_heap : (α → α → Bool) → List α → List α
  pop_heap : (α → α → Bool) → List α → List α
  make_heap_perm : ∀ {comp} (l : List α), StrictWeak comp → (make_heap comp l).Perm l
  isHeap_make_heap : ∀ {comp} (l : List α), StrictWeak comp → IsHeap comp (make_heap comp l)
  push_heap_perm : ∀ {comp} {l : List α} (a : α), StrictWeak comp → IsHeap comp l →
    (push_heap comp (l ++ [a])).Perm (l ++ [a])
  isHeap_push_heap : ∀ {comp} {l : List α} (a : α), StrictWeak comp → IsHeap comp l →
    IsHeap comp (push_heap comp (l ++ [a]))
  /-- The front goes to the end, and what stands before it is a heap again. -/
  pop_heap_eq : ∀ {comp} {l : List α} {a : α}, StrictWeak comp → IsHeap comp (a :: l) →
    ∃ rest, pop_heap comp (a :: l) = rest ++ [a] ∧ rest.Perm l ∧ IsHeap comp rest

/-- A list is put in the order of a comparison. -/
def sorted (comp : α → α → Bool) (l : List α) : List α :=
  l.insertionSort fun a b => comp a b = false

theorem sorted_perm : (sorted comp l).Perm l := List.perm_insertionSort _ l

theorem isHeap_sorted (hcomp : StrictWeak comp) : IsHeap comp (sorted comp l) := by
  have htotal : Std.Total fun a b => comp a b = false := by
    constructor
    intro a b
    cases hab : comp a b with
    | false => exact Or.inl rfl
    | true => exact Or.inr (hcomp.asymm hab)
  have htrans : IsTrans α fun a b => comp a b = false := ⟨fun _ _ _ => hcomp.negTrans⟩
  exact isHeap_of_pairwise (List.pairwise_insertionSort _ l)

/-- Lists that are kept in order are heaps. -/
def sorting : HeapFunctions α where
  make_heap := sorted
  push_heap := sorted
  pop_heap := fun comp l => sorted comp l.tail ++ l.take 1
  make_heap_perm := fun _ _ => sorted_perm
  isHeap_make_heap := fun _ => isHeap_sorted
  push_heap_perm := fun _ _ _ => sorted_perm
  isHeap_push_heap := fun _ hcomp _ => isHeap_sorted hcomp
  pop_heap_eq := fun hcomp _ => ⟨_, rfl, sorted_perm, isHeap_sorted hcomp⟩

end Osquery.Foundation.Heaps
