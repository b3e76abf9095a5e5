import Mathlib.Data.List.Basic

/-!
# Runs of steps that can fail

A run takes its actions in order and has a result when every one of them succeeds. A relation
between the states of two systems that every successful step preserves is preserved by every
successful run, and the run of the second system succeeds too.

## Implementation notes

The two systems take the same actions. Which actions are meant is a predicate, so that the
step rule need only speak of these. Steps that are judged do not fail: what is bad about one is
a judgement on the state before it.
-/

namespace Osquery.Foundation.Simulation

variable {σ τ α : Type*}

def run (step : σ → α → Option σ) (s : σ) (actions : List α) : Option σ := actions.foldlM step s

theorem run_nil (step : σ → α → Option σ) (s : σ) : run step s [] = some s := rfl

theorem run_cons (step : σ → α → Option σ) (s : σ) (action : α) (actions : List α) :
    run step s (action :: actions) = (step s action).bind fun s => run step s actions := by
  rw [run, List.foldlM_cons]
  rfl

/-- When every step from a state of a kind succeeds and leads to one, so does every run. -/
theorem run_of_total {step : σ → α → Option σ} {I : σ → Prop}
    (htotal : ∀ ⦃s⦄ action, I s → ∃ s', step s action = some s' ∧ I s') (actions : List α) {s : σ}
    (h : I s) : ∃ s', run step s actions = some s' ∧ I s' := by
  induction actions generalizing s with
  | nil => exact ⟨s, rfl, h⟩
  | cons action actions ih =>
      obtain ⟨s₁, hstep, h₁⟩ := htotal action h
      obtain ⟨s', hrun, h'⟩ := ih h₁
      refine ⟨s', ?_, h'⟩
      rw [run_cons, hstep]
      exact hrun

/-- A step of the first system is followed by the second one, which keeps the relation. -/
def Follows (step : σ → α → Option σ) (step' : τ → α → Option τ) (R : σ → τ → Prop)
    (meant : α → Prop) : Prop :=
  ∀ ⦃s t action s'⦄, R s t → meant action → step s action = some s' →
    ∃ t', step' t action = some t' ∧ R s' t'

/-- What a step preserves, a run preserves. -/
theorem Follows.run {step : σ → α → Option σ} {step' : τ → α → Option τ} {R : σ → τ → Prop}
    {meant : α → Prop} (hfollows : Follows step step' R meant) {actions : List α}
    (hmeant : ∀ action ∈ actions, meant action) {s s' : σ} {t : τ} (hrelated : R s t)
    (hrun : run step s actions = some s') :
    ∃ t', Simulation.run step' t actions = some t' ∧ R s' t' := by
  induction actions generalizing s t with
  | nil =>
      obtain rfl := Option.some.inj hrun
      exact ⟨t, rfl, hrelated⟩
  | cons action actions ih =>
      rw [run_cons] at hrun
      obtain ⟨s₁, hstep, hrest⟩ := Option.bind_eq_some_iff.mp hrun
      obtain ⟨t₁, hstep', hrelated'⟩ := hfollows hrelated (hmeant action (List.mem_cons_self ..))
        hstep
      obtain ⟨t', hrun', hresult⟩ := ih (fun other h => hmeant other (List.mem_cons_of_mem _ h))
        hrelated' hrest
      refine ⟨t', ?_, hresult⟩
      rw [run_cons, hstep']
      exact hrun'

/-! ### Runs that are judged step by step -/

/-- A judgement holds of every step of a run. -/
def Throughout (step : σ → α → σ) (judge : σ → α → Prop) : σ → List α → Prop
  | _, [] => True
  | s, action :: actions => judge s action ∧ Throughout step judge (step s action) actions

instance Throughout.decidable (step : σ → α → σ) (judge : σ → α → Prop)
    [∀ s action, Decidable (judge s action)] :
    ∀ s actions, Decidable (Throughout step judge s actions)
  | _, [] => inferInstanceAs (Decidable True)
  | s, action :: actions =>
      have := Throughout.decidable step judge (step s action) actions
      inferInstanceAs (Decidable (judge s action ∧ Throughout step judge (step s action) actions))

/-- Judgements of two systems agree on a run if they agree on related states, and a step that
is judged well keeps the relation. -/
theorem throughout_iff {step : σ → α → σ} {step' : τ → α → τ} {judge : σ → α → Prop}
    {judge' : τ → α → Prop} {R : σ → τ → Prop} {meant : α → Prop}
    (hjudge : ∀ ⦃s t action⦄, R s t → meant action → (judge s action ↔ judge' t action))
    (hstep : ∀ ⦃s t action⦄, R s t → meant action → judge' t action →
      R (step s action) (step' t action))
    {actions : List α} (hmeant : ∀ action ∈ actions, meant action) {s : σ} {t : τ}
    (hrelated : R s t) : Throughout step judge s actions ↔ Throughout step' judge' t actions := by
  induction actions generalizing s t with
  | nil => exact Iff.rfl
  | cons action actions ih =>
      have hhead := hmeant action (List.mem_cons_self ..)
      rw [Throughout, Throughout, hjudge hrelated hhead]
      apply and_congr_right
      intro hgood
      exact ih (fun other h => hmeant other (List.mem_cons_of_mem _ h))
        (hstep hrelated hhead hgood)

/-- Judgements that agree on every step agree on runs. -/
theorem throughout_congr {step : σ → α → σ} {judge judge' : σ → α → Prop}
    (h : ∀ s action, judge s action ↔ judge' s action) (s : σ) (actions : List α) :
    Throughout step judge s actions ↔ Throughout step judge' s actions := by
  have heq : judge = judge' := funext fun s => funext fun action => propext (h s action)
  rw [heq]

/-- A judgement on the actions alone. -/
theorem throughout_const {step : σ → α → σ} {judge : α → Prop} {s : σ} {actions : List α} :
    Throughout step (fun _ action => judge action) s actions ↔
      ∀ action ∈ actions, judge action := by
  induction actions generalizing s with
  | nil => exact iff_of_true trivial (List.forall_mem_nil _)
  | cons action actions ih => rw [Throughout, ih, List.forall_mem_cons]

theorem throughout_true {step : σ → α → σ} {s : σ} {actions : List α} :
    Throughout step (fun _ _ => True) s actions := throughout_const.mpr fun _ _ => trivial

/-- Judgements that agree while an invariant holds agree on every run that keeps to a proviso,
if a step that is judged well keeps the invariant. -/
theorem throughout_iff_of_invariant {step : σ → α → σ} {judge judge' proviso : σ → α → Prop}
    {I : σ → Prop}
    (hjudge : ∀ ⦃s action⦄, I s → proviso s action → (judge s action ↔ judge' s action))
    (hstep : ∀ ⦃s action⦄, I s → proviso s action → judge' s action → I (step s action))
    {actions : List α} {s : σ} (hs : I s) (hproviso : Throughout step proviso s actions) :
    Throughout step judge s actions ↔ Throughout step judge' s actions := by
  induction actions generalizing s with
  | nil => exact Iff.rfl
  | cons action actions ih =>
      rw [Throughout, Throughout, hjudge hs hproviso.1]
      apply and_congr_right
      intro hgood
      exact ih (hstep hs hproviso.1 hgood) hproviso.2

theorem Throughout.and {step : σ → α → σ} {judge judge' : σ → α → Prop} {actions : List α} {s : σ}
    (h : Throughout step judge s actions) (h' : Throughout step judge' s actions) :
    Throughout step (fun s action => judge s action ∧ judge' s action) s actions := by
  induction actions generalizing s with
  | nil => trivial
  | cons action actions ih => exact ⟨⟨h.1, h'.1⟩, ih h.2 h'.2⟩

theorem throughout_append {step : σ → α → σ} {judge : σ → α → Prop} {s : σ}
    {actions more : List α} : Throughout step judge s (actions ++ more) ↔
      Throughout step judge s actions ∧ Throughout step judge (actions.foldl step s) more := by
  induction actions generalizing s with
  | nil => exact (and_iff_right trivial).symm
  | cons action actions ih =>
      rw [List.cons_append, Throughout, ih, Throughout, and_assoc, List.foldl_cons]

/-- An invariant turns one judgement of the steps of a run into another one. -/
theorem Throughout.imp {step : σ → α → σ} {judge judge' : σ → α → Prop} {I : σ → Prop}
    (hstep : ∀ ⦃s action⦄, I s → judge' s action → judge s action ∧ I (step s action))
    {actions : List α} {s : σ} (hs : I s) (h : Throughout step judge' s actions) :
    Throughout step judge s actions := by
  induction actions generalizing s with
  | nil => trivial
  | cons action actions ih =>
      obtain ⟨hjudge, hnext⟩ := hstep hs h.1
      exact ⟨hjudge, ih hnext h.2⟩

/-- A step that is judged well keeps what holds, and what any other one leads to stays. -/
theorem throughout_or {step : σ → α → σ} {judge : σ → α → Prop} {I D : σ → Prop}
    (hgood : ∀ s action, I s → judge s action → I (step s action))
    (hbad : ∀ s action, I s → ¬judge s action → D (step s action))
    (hstays : ∀ s action, D s → D (step s action)) (actions : List α) {s : σ} (h : I s) :
    (Throughout step judge s actions ∧ I (actions.foldl step s)) ∨
      (¬Throughout step judge s actions ∧ D (actions.foldl step s)) := by
  induction actions generalizing s with
  | nil => exact .inl ⟨trivial, h⟩
  | cons action actions ih =>
      by_cases hjudge : judge s action
      · exact (ih (hgood s action h hjudge)).imp (fun hrest => ⟨⟨hjudge, hrest.1⟩, hrest.2⟩)
          (fun hrest => ⟨fun hall => hrest.1 hall.2, hrest.2⟩)
      · exact .inr ⟨fun hall => hjudge hall.1,
          List.foldlRecOn actions step (hbad s action h hjudge) fun s hs action _ =>
            hstays s action hs⟩

end Osquery.Foundation.Simulation
