import Mathlib.Data.List.Basic
import Mathlib.Data.List.Induction

/-!
# Machines with an output at every step

A machine reads one input after another; each step gives a new state and an output. Two
machines whose steps keep a relation between their states, and agree on the outputs for
related states, answer every sequence of inputs alike.
-/

namespace Osquery.Foundation.Transducers

variable {σ τ ι ο : Type*} (step : σ → ι → σ × ο)

def stateAfter (s : σ) (inputs : List ι) : σ :=
  inputs.foldl (fun s i => (step s i).1) s

def outputs : σ → List ι → List ο
  | _, [] => []
  | s, i :: inputs => (step s i).2 :: outputs (step s i).1 inputs

@[simp] theorem outputs_nil (s : σ) : outputs step s [] = [] := rfl

theorem outputs_cons (s : σ) (i : ι) (inputs : List ι) :
    outputs step s (i :: inputs) = (step s i).2 :: outputs step (step s i).1 inputs := rfl

@[simp] theorem stateAfter_nil (s : σ) : stateAfter step s [] = s := rfl

theorem stateAfter_cons (s : σ) (i : ι) (inputs : List ι) :
    stateAfter step s (i :: inputs) = stateAfter step (step s i).1 inputs := rfl

theorem stateAfter_concat (s : σ) (inputs : List ι) (i : ι) :
    stateAfter step s (inputs ++ [i]) = (step (stateAfter step s inputs) i).1 := by
  rw [stateAfter, List.foldl_append]
  rfl

/-- A relation that the steps keep is kept by a run, and the outputs are the same. -/
theorem outputs_eq_of_related {step' : τ → ι → τ × ο} {R : σ → τ → Prop}
    (hstep : ∀ s t i, R s t → R (step s i).1 (step' t i).1 ∧ (step s i).2 = (step' t i).2)
    {s : σ} {t : τ} (h : R s t) (inputs : List ι) :
    outputs step s inputs = outputs step' t inputs := by
  induction inputs generalizing s t with
  | nil => rfl
  | cons i inputs ih =>
      obtain ⟨hnext, hout⟩ := hstep s t i h
      rw [outputs_cons, outputs_cons, hout, ih hnext]

/-- What holds after every prefix, when each step needs just its own condition for it. -/
theorem forall_prefix_iff {P : List ι → Prop} {C : List ι → ι → Prop} (hnil : P [])
    (hstep : ∀ before i, P before → (P (before ++ [i]) ↔ C before i)) (inputs : List ι) :
    (∀ before, before <+: inputs → P before) ↔
      ∀ before i, before ++ [i] <+: inputs → C before i := by
  constructor
  · intro h before i hi
    have hbefore : P before := h before ((List.prefix_append before [i]).trans hi)
    exact (hstep before i hbefore).1 (h _ hi)
  · intro h before
    induction before using List.reverseRecOn with
    | nil => exact fun _ => hnil
    | append_singleton before i ih =>
        intro hi
        have hbefore : P before := ih ((List.prefix_append before [i]).trans hi)
        exact (hstep before i hbefore).2 (h before i hi)

end Osquery.Foundation.Transducers
