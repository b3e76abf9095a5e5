import Mathlib.Order.Nat
import Osquery.Foundation.Simulation

/-!
# Duties that are taken and discharged

A party takes the duty to do a thing, and discharges it later. When no duty is taken for a thing
that is done or that another party has to do, every thing is done at most once. A duty that is
taken nevertheless cannot be undone: when all duties are discharged, a thing is done twice.
-/

namespace Osquery.Foundation

/-- What each party has to do, and how often each thing was done. -/
structure Duties (π κ : Type*) where
  owes : π → Option κ
  done : κ → ℕ

namespace Duties

variable {π κ : Type*} (d : Duties π κ)

/-- Nobody has to do the thing, and it was not done. -/
def Free (k : κ) : Prop := (∀ p, d.owes p ≠ some k) ∧ d.done k = 0

structure Once : Prop where
  unique : ∀ p p' k, d.owes p = some k → d.owes p' = some k → p = p'
  undone : ∀ p k, d.owes p = some k → d.done k = 0
  done_le : ∀ k, d.done k ≤ 1

/-- Something is done twice, or will be. -/
inductive Twice : Prop
  | owed (p p' : π) (k : κ) (hne : p ≠ p') (hp : d.owes p = some k) (hp' : d.owes p' = some k)
  | again (p : π) (k : κ) (hp : d.owes p = some k) (hdone : 1 ≤ d.done k)
  | done (k : κ) (hdone : 2 ≤ d.done k)

variable {d} {p : π} {k : κ}

theorem Twice.exists_done (h : d.Twice) (hnone : ∀ p, d.owes p = none) : ∃ k, 2 ≤ d.done k := by
  cases h with
  | owed p p' k hne hp hp' => rw [hnone p] at hp; cases hp
  | again p k hp hdone => rw [hnone p] at hp; cases hp
  | done k hdone => exact ⟨k, hdone⟩

/-- A party that has something to do is another one than a party that has nothing to do. -/
theorem ne_of_owes (hp : d.owes p = none) {p' : π} {k' : κ} (hp' : d.owes p' = some k') :
    p' ≠ p := by
  rintro rfl
  rw [hp] at hp'
  cases hp'

section Take

variable [DecidableEq π]

def take (d : Duties π κ) (p : π) (k : κ) : Duties π κ :=
  { d with owes := Function.update d.owes p (some k) }

theorem owes_take_self : (d.take p k).owes p = some k := Function.update_self ..

theorem owes_take_of_ne {p' : π} (hne : p' ≠ p) : (d.take p k).owes p' = d.owes p' :=
  Function.update_of_ne hne ..

theorem Once.take (h : d.Once) (hfree : d.Free k) : (d.take p k).Once := by
  have howes (p' : π) (k' : κ) (hp' : (d.take p k).owes p' = some k') :
      (p' = p ∧ k' = k) ∨ (d.owes p' = some k' ∧ k' ≠ k) := by
    by_cases hne : p' = p
    · rw [hne, owes_take_self] at hp'
      exact .inl ⟨hne, (Option.some.inj hp').symm⟩
    · rw [owes_take_of_ne hne] at hp'
      refine .inr ⟨hp', ?_⟩
      rintro rfl
      exact hfree.1 p' hp'
  constructor
  · intro p₁ p₂ k' h₁ h₂
    obtain ⟨rfl, rfl⟩ | ⟨h₁, hne₁⟩ := howes p₁ k' h₁
    · obtain ⟨rfl, -⟩ | ⟨-, hne₂⟩ := howes p₂ k' h₂
      · rfl
      · exact absurd rfl hne₂
    · obtain ⟨-, rfl⟩ | ⟨h₂, -⟩ := howes p₂ k' h₂
      · exact absurd rfl hne₁
      · exact h.unique p₁ p₂ k' h₁ h₂
  · intro p' k' hp'
    obtain ⟨-, rfl⟩ | ⟨hp', -⟩ := howes p' k' hp'
    · exact hfree.2
    · exact h.undone p' k' hp'
  · exact h.done_le

/-- A duty for a thing that is not free makes it a thing that is done twice. -/
theorem twice_take (hp : d.owes p = none) (hfree : ¬d.Free k) : (d.take p k).Twice := by
  by_cases hnobody : ∀ p', d.owes p' ≠ some k
  · have hdone : d.done k ≠ 0 := fun hdone => hfree ⟨hnobody, hdone⟩
    exact .again p k owes_take_self (Nat.one_le_iff_ne_zero.mpr hdone)
  · obtain ⟨p', hp'⟩ := not_forall_not.mp hnobody
    have hne : p' ≠ p := ne_of_owes hp hp'
    exact .owed p p' k hne.symm owes_take_self ((owes_take_of_ne hne).trans hp')

theorem Twice.take (h : d.Twice) (hp : d.owes p = none) : (d.take p k).Twice := by
  cases h with
  | owed p₁ p₂ k' hne h₁ h₂ =>
      exact .owed p₁ p₂ k' hne ((owes_take_of_ne (ne_of_owes hp h₁)).trans h₁)
        ((owes_take_of_ne (ne_of_owes hp h₂)).trans h₂)
  | again p' k' hp' hdone =>
      exact .again p' k' ((owes_take_of_ne (ne_of_owes hp hp')).trans hp') hdone
  | done k' hdone => exact .done k' hdone

variable [DecidableEq κ]

def discharge (d : Duties π κ) (p : π) (k : κ) : Duties π κ where
  owes := Function.update d.owes p none
  done := Function.update d.done k (d.done k + 1)

theorem owes_discharge_of_ne {p' : π} (hne : p' ≠ p) : (d.discharge p k).owes p' = d.owes p' :=
  Function.update_of_ne hne ..

/-- What is still to be done was to be done before, by another party. -/
theorem of_owes_discharge {p' : π} {k' : κ} (h : (d.discharge p k).owes p' = some k') :
    p' ≠ p ∧ d.owes p' = some k' := by
  by_cases hne : p' = p
  · have hnone : (d.discharge p k).owes p = none := Function.update_self ..
    rw [hne, hnone] at h
    cases h
  · exact ⟨hne, (owes_discharge_of_ne hne).symm.trans h⟩

theorem done_discharge_self : (d.discharge p k).done k = d.done k + 1 := Function.update_self ..

theorem done_discharge_of_ne {k' : κ} (hne : k' ≠ k) : (d.discharge p k).done k' = d.done k' :=
  Function.update_of_ne hne ..

theorem le_done_discharge (k' : κ) : d.done k' ≤ (d.discharge p k).done k' := by
  by_cases hne : k' = k
  · rw [hne, done_discharge_self]
    exact Nat.le_succ _
  · exact Nat.le_of_eq (done_discharge_of_ne hne).symm

theorem Once.discharge (h : d.Once) (hp : d.owes p = some k) : (d.discharge p k).Once := by
  constructor
  · intro p₁ p₂ k' h₁ h₂
    exact h.unique p₁ p₂ k' (of_owes_discharge h₁).2 (of_owes_discharge h₂).2
  · intro p' k' h'
    obtain ⟨hne, hp'⟩ := of_owes_discharge h'
    have hother : k' ≠ k := by
      rintro rfl
      exact hne (h.unique p' p k' hp' hp)
    rw [done_discharge_of_ne hother]
    exact h.undone p' k' hp'
  · intro k'
    by_cases hne : k' = k
    · rw [hne, done_discharge_self, h.undone p k hp]
    · rw [done_discharge_of_ne hne]
      exact h.done_le k'

theorem one_le_done_discharge : 1 ≤ (d.discharge p k).done k := by
  rw [done_discharge_self]
  exact Nat.le_add_left 1 _

theorem Twice.discharge (h : d.Twice) (hp : d.owes p = some k) : (d.discharge p k).Twice := by
  cases h with
  | owed p₁ p₂ k' hne h₁ h₂ =>
      -- One of the two parties is left, and the other one has done the thing.
      by_cases hfirst : p₁ = p
      · subst hfirst
        obtain rfl : k' = k := Option.some.inj (h₁.symm.trans hp)
        exact .again p₂ k' ((owes_discharge_of_ne hne.symm).trans h₂) one_le_done_discharge
      · by_cases hsecond : p₂ = p
        · subst hsecond
          obtain rfl : k' = k := Option.some.inj (h₂.symm.trans hp)
          exact .again p₁ k' ((owes_discharge_of_ne hfirst).trans h₁) one_le_done_discharge
        · exact .owed p₁ p₂ k' hne ((owes_discharge_of_ne hfirst).trans h₁)
            ((owes_discharge_of_ne hsecond).trans h₂)
  | again p' k' hp' hdone =>
      by_cases hne : p' = p
      · subst hne
        obtain rfl : k' = k := Option.some.inj (hp'.symm.trans hp)
        refine .done k' ?_
        rw [done_discharge_self]
        exact Nat.succ_le_succ hdone
      · exact .again p' k' ((owes_discharge_of_ne hne).trans hp')
          (Nat.le_trans hdone (le_done_discharge k'))
  | done k' hdone => exact .done k' (Nat.le_trans hdone (le_done_discharge k'))

/-! ### Runs -/

/-- What a party does in a step that is judged: nothing, take a duty, or discharge its own. The
judgement tells whether a duty is taken for a thing that is free. -/
inductive Move (good : Prop) (d : Duties π κ) : Duties π κ → Prop
  | rest (hgood : good) : Move good d d
  | take (p : π) (k : κ) (hp : d.owes p = none) (hgood : good ↔ d.Free k) : Move good d (d.take p k)
  | discharge (p : π) (k : κ) (hp : d.owes p = some k) (hgood : good) :
      Move good d (d.discharge p k)

variable {good : Prop} {d' : Duties π κ}

theorem Move.of_eq (h : d' = d) (hgood : good) : Move good d d' := h ▸ .rest hgood

theorem Move.once (hmove : Move good d d') (hgood : good) (h : d.Once) : d'.Once := by
  cases hmove with
  | rest => exact h
  | take p k hp hfree => exact h.take (hfree.mp hgood)
  | discharge p k hp => exact h.discharge hp

theorem Move.twice (hmove : Move good d d') (hgood : ¬good) : d'.Twice := by
  cases hmove with
  | rest h => exact absurd h hgood
  | take p k hp hfree => exact twice_take hp (hfree.not.mp hgood)
  | discharge p k hp h => exact absurd h hgood

theorem Twice.move (h : d.Twice) (hmove : Move good d d') : d'.Twice := by
  cases hmove with
  | rest => exact h
  | take p k hp => exact h.take hp
  | discharge p k hp => exact h.discharge hp

/-- A thing that is not free does not become so again. -/
theorem Move.not_free (hmove : Move good d d') (h : ¬d.Free k) : ¬d'.Free k := by
  rintro ⟨hnobody, hundone⟩
  apply h
  cases hmove with
  | rest => exact ⟨hnobody, hundone⟩
  | take p k' hp =>
      refine ⟨fun p' hp' => hnobody p' ?_, hundone⟩
      exact (owes_take_of_ne (ne_of_owes hp hp')).trans hp'
  | discharge p k' hp =>
      have hother : k ≠ k' := by
        rintro rfl
        rw [done_discharge_self] at hundone
        cases hundone
      refine ⟨fun p' hp' => hnobody p' ?_, (done_discharge_of_ne hother).symm.trans hundone⟩
      have hne : p' ≠ p := by
        rintro rfl
        exact hother (Option.some.inj (hp'.symm.trans hp))
      exact (owes_discharge_of_ne hne).trans hp'

/-- When all duties are discharged at the end of a run, everything was done at most once exactly
if every duty was taken for a thing that was free. -/
theorem done_le_one_iff_throughout {σ α : Type*} {step : σ → α → σ} {judge : σ → α → Prop}
    {I : σ → Prop} (duties : σ → Duties π κ) (hstep : ∀ s action, I s → I (step s action))
    (hmove : ∀ s action, I s → Move (judge s action) (duties s) (duties (step s action)))
    {s : σ} (hs : I s) (honce : (duties s).Once) (actions : List α)
    (hnone : ∀ p, (duties (actions.foldl step s)).owes p = none) :
    (∀ k, (duties (actions.foldl step s)).done k ≤ 1) ↔
      Simulation.Throughout step judge s actions := by
  have hverdict := Simulation.throughout_or (I := fun s => I s ∧ (duties s).Once)
    (D := fun s => I s ∧ (duties s).Twice)
    (fun s action h hgood => ⟨hstep s action h.1, (hmove s action h.1).once hgood h.2⟩)
    (fun s action h hbad => ⟨hstep s action h.1, (hmove s action h.1).twice hbad⟩)
    (fun s action h => ⟨hstep s action h.1, h.2.move (hmove s action h.1)⟩) actions ⟨hs, honce⟩
  obtain ⟨hgood, -, honce⟩ | ⟨hbad, -, htwice⟩ := hverdict
  · exact iff_of_true honce.done_le hgood
  · refine iff_of_false ?_ hbad
    intro hdone
    obtain ⟨k, hk⟩ := htwice.exists_done hnone
    exact absurd (Nat.le_trans hk (hdone k)) (by decide)

end Take

end Duties

end Osquery.Foundation
