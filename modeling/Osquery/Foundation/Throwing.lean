import Mathlib.Data.List.Monad

/-!
# Programs that may throw

A program that throws has no result. It succeeds when it has one, and a sequence of programs
succeeds when each of them does, whatever the results before are.
-/

namespace Osquery.Foundation.Throwing

variable {ε α β : Type*}

theorem bind_eq_ok_iff {α β : Type} {x : Except ε α} {f : α → Except ε β} {b : β} :
    x >>= f = .ok b ↔ ∃ a, x = .ok a ∧ f a = .ok b := by
  cases x with
  | error e =>
      refine iff_of_false (fun h => ?_) ?_
      · cases h
      · rintro ⟨a, ha, -⟩
        cases ha
  | ok a =>
      constructor
      · intro h
        exact ⟨a, rfl, h⟩
      · rintro ⟨a', ha, h⟩
        obtain rfl := Except.ok.inj ha
        exact h

theorem ok_bind {α β : Type} (a : α) (f : α → Except ε β) : Except.ok a >>= f = f a := rfl

/-- The program ends with a result. -/
def Succeeds (x : Except ε α) : Prop := ∃ a, x = .ok a

theorem succeeds_ok (a : α) : Succeeds (.ok a : Except ε α) := ⟨a, rfl⟩

theorem not_succeeds_error (e : ε) : ¬ Succeeds (.error e : Except ε α) := by
  rintro ⟨a, ha⟩
  cases ha

theorem succeeds_bind_iff {α β : Type} {x : Except ε α} {f : α → Except ε β} :
    Succeeds (x >>= f) ↔ ∃ a, x = .ok a ∧ Succeeds (f a) := by
  constructor
  · rintro ⟨b, hb⟩
    obtain ⟨a, ha, hfa⟩ := bind_eq_ok_iff.1 hb
    exact ⟨a, ha, b, hfa⟩
  · rintro ⟨a, ha, b, hb⟩
    exact ⟨b, bind_eq_ok_iff.2 ⟨a, ha, hb⟩⟩

theorem succeeds_bind {α β : Type} {x : Except ε α} {f : α → Except ε β} (hx : Succeeds x)
    (hf : ∀ a, Succeeds (f a)) : Succeeds (x >>= f) := by
  obtain ⟨a, ha⟩ := hx
  exact succeeds_bind_iff.2 ⟨a, ha, hf a⟩

theorem succeeds_foldlM {α β : Type} {f : β → α → Except ε β} (h : ∀ b a, Succeeds (f b a))
    (items : List α) (b : β) : Succeeds (items.foldlM f b) := by
  induction items generalizing b with
  | nil => exact succeeds_ok b
  | cons a items ih =>
      rw [List.foldlM_cons]
      exact succeeds_bind (h b a) ih

theorem succeeds_mapM_iff {α β : Type} {f : α → Except ε β} {items : List α} :
    Succeeds (items.mapM f) ↔ ∀ a ∈ items, Succeeds (f a) := by
  induction items with
  | nil => exact iff_of_true (succeeds_ok []) fun _ h => by cases h
  | cons a items ih =>
      rw [List.mapM_cons, List.forall_mem_cons, succeeds_bind_iff, ← ih]
      constructor
      · rintro ⟨b, hb, hrest⟩
        obtain ⟨bs, hbs, -⟩ := succeeds_bind_iff.1 hrest
        exact ⟨⟨b, hb⟩, bs, hbs⟩
      · rintro ⟨⟨b, hb⟩, bs, hbs⟩
        exact ⟨b, hb, succeeds_bind_iff.2 ⟨bs, hbs, succeeds_ok _⟩⟩

end Osquery.Foundation.Throwing
