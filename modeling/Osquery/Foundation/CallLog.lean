import Osquery.Foundation.Simulation

/-!
# Programs that log their calls

A program makes calls, each of which is logged with its arguments, and ends with a result
unless it throws. It is guarded when every call in its log meets the precondition of the
calls. A composition is guarded when its first program is and the second one is after the
result of the first.
-/

namespace Osquery.Foundation.CallLog

open Simulation

/-- What a program logged, and its result unless it threw. -/
@[ext]
structure Logged (κ α : Type) where
  result : Option α
  log : List κ

namespace Logged

variable {κ α β σ τ : Type}

def call (k : κ) (a : α) : Logged κ α := ⟨some a, [k]⟩

/-- A computation without calls. -/
def ofOption (a : Option α) : Logged κ α := ⟨a, []⟩

/-- A program whose throw is caught. -/
def attempt (x : Logged κ α) (otherwise : α) : Logged κ α :=
  ⟨some (x.result.getD otherwise), x.log⟩

/-- The second program runs on the result of the first one, if there is one. -/
def bind (x : Logged κ α) (f : α → Logged κ β) : Logged κ β where
  result := x.result.bind fun a => (f a).result
  log := x.log ++ (x.result.map fun a => (f a).log).getD []

instance : Monad (Logged κ) where
  pure a := ⟨some a, []⟩
  bind := bind

@[simp] theorem result_pure (a : α) : (pure a : Logged κ α).result = some a := rfl

@[simp] theorem result_bind (x : Logged κ α) (f : α → Logged κ β) :
    (x >>= f).result = x.result.bind fun a => (f a).result := rfl

@[simp] theorem result_call (k : κ) (a : α) : (call k a).result = some a := rfl

@[simp] theorem result_ofOption (a : Option α) : (ofOption a : Logged κ α).result = a := rfl

@[simp] theorem result_attempt (x : Logged κ α) (otherwise : α) :
    (x.attempt otherwise).result = some (x.result.getD otherwise) := rfl

theorem log_bind (x : Logged κ α) (f : α → Logged κ β) :
    (x >>= f).log = x.log ++ (x.result.map fun a => (f a).log).getD [] := rfl

instance : LawfulMonad (Logged κ) :=
  LawfulMonad.mk' (Logged κ)
    (by
      rintro α ⟨result, log⟩
      cases result with
      | none => exact Logged.ext rfl (List.append_nil _)
      | some a => exact Logged.ext rfl (List.append_nil _))
    (fun a f => rfl)
    (by
      rintro α β γ ⟨result, log⟩ f g
      cases result with
      | none => exact Logged.ext rfl (by simp [log_bind])
      | some a =>
          refine Logged.ext rfl ?_
          cases hfa : (f a).result with
          | none => simp [log_bind, hfa]
          | some b => simp [log_bind, hfa])

@[simp] theorem result_map (f : α → β) (x : Logged κ α) :
    (f <$> x).result = x.result.map f := by
  rw [← bind_pure_comp, result_bind]
  cases x.result with
  | none => rfl
  | some a => rfl

/-! ### Guarded programs -/

/-- Every call meets the precondition. -/
def Guarded (ok : κ → Prop) (x : Logged κ α) : Prop := ∀ k ∈ x.log, ok k

variable {ok : κ → Prop}

@[simp] theorem guarded_pure (a : α) : Guarded ok (pure a : Logged κ α) :=
  fun _ hk => absurd hk List.not_mem_nil

@[simp] theorem guarded_ofOption (a : Option α) : Guarded ok (ofOption a : Logged κ α) :=
  fun _ hk => absurd hk List.not_mem_nil

@[simp] theorem guarded_call (k : κ) (a : α) : Guarded ok (call k a) ↔ ok k :=
  List.forall_mem_singleton

theorem guarded_bind (x : Logged κ α) (f : α → Logged κ β) :
    Guarded ok (x >>= f) ↔ Guarded ok x ∧ ∀ a, x.result = some a → Guarded ok (f a) := by
  rw [Guarded, log_bind, List.forall_mem_append]
  apply and_congr_right
  intro _
  cases hx : x.result with
  | none => simp
  | some a => simp [Guarded]

theorem guarded_bind_of_result {x : Logged κ α} {a : α} (h : x.result = some a)
    (f : α → Logged κ β) : Guarded ok (x >>= f) ↔ Guarded ok x ∧ Guarded ok (f a) := by
  simp [guarded_bind, h]

@[simp] theorem guarded_map (f : α → β) (x : Logged κ α) :
    Guarded ok (f <$> x) ↔ Guarded ok x := by
  rw [← bind_pure_comp, guarded_bind]
  exact and_iff_left fun a _ => guarded_pure (f a)

/-! ### Specifications -/

/-- The program has the result, and is guarded exactly under the condition. -/
structure Spec (ok : κ → Prop) (x : Logged κ α) (result : Option α) (P : Prop) : Prop where
  result_eq : x.result = result
  guarded_iff : Guarded ok x ↔ P

variable {x : Logged κ α} {a : α} {result : Option α} {P Q : Prop}

theorem Spec.pure (a : α) : Spec ok (Pure.pure a : Logged κ α) (some a) True :=
  ⟨rfl, iff_of_true (guarded_pure a) trivial⟩

theorem Spec.call (k : κ) (a : α) : Spec ok (Logged.call k a) (some a) (ok k) :=
  ⟨rfl, guarded_call k a⟩

theorem Spec.ofOption (result : Option α) :
    Spec ok (Logged.ofOption result : Logged κ α) result True :=
  ⟨rfl, iff_of_true (guarded_ofOption result) trivial⟩

theorem Spec.attempt (h : Spec ok x (some a) P) (otherwise : α) :
    Spec ok (x.attempt otherwise) (some a) P := by
  refine ⟨?_, h.guarded_iff⟩
  rw [result_attempt, h.result_eq, Option.getD_some]

theorem Spec.bind (h : Spec ok x (some a) P) {f : α → Logged κ β} {result : Option β}
    (h' : Spec ok (f a) result Q) : Spec ok (x >>= f) result (P ∧ Q) := by
  constructor
  · rw [result_bind, h.result_eq]
    exact h'.result_eq
  · rw [guarded_bind_of_result h.result_eq, h.guarded_iff, h'.guarded_iff]

/-- Nothing runs behind a throw. -/
theorem Spec.bind_none (h : Spec ok x none P) (f : α → Logged κ β) :
    Spec ok (x >>= f) none P := by
  constructor
  · rw [result_bind, h.result_eq]
    rfl
  · rw [guarded_bind, h.guarded_iff, h.result_eq]
    exact and_iff_left fun a ha => absurd ha.symm (Option.some_ne_none a)

theorem Spec.map (h : Spec ok x result P) (f : α → β) :
    Spec ok (f <$> x) (result.map f) P :=
  ⟨by rw [result_map, h.result_eq], (guarded_map f x).trans h.guarded_iff⟩

theorem Spec.congr (h : Spec ok x result P) (hPQ : P ↔ Q) : Spec ok x result Q :=
  ⟨h.result_eq, h.guarded_iff.trans hPQ⟩

/-- A program without a condition of its own comes first. -/
theorem Spec.then (h : Spec ok x (some a) True) {f : α → Logged κ β} {result : Option β}
    (h' : Spec ok (f a) result Q) : Spec ok (x >>= f) result Q :=
  (h.bind h').congr (and_iff_right trivial)

/-! ### Passes over a list -/

/-- A pass of programs that do not throw. -/
theorem Spec.mapM {f : α → Logged κ β} {g : α → β} {judge : α → Prop}
    (h : ∀ a, Spec ok (f a) (some (g a)) (judge a)) (l : List α) :
    Spec ok (l.mapM f) (some (l.map g)) (∀ a ∈ l, judge a) := by
  induction l with
  | nil => exact (Spec.pure []).congr (by simp)
  | cons a l ih =>
      rw [List.mapM_cons, List.map_cons]
      have hrest : Spec ok (l.mapM f >>= fun bs => Pure.pure (g a :: bs))
          (some (g a :: l.map g)) ((∀ a ∈ l, judge a) ∧ True) := ih.bind (Spec.pure _)
      exact ((h a).bind hrest).congr (by simp)

end Logged

end Osquery.Foundation.CallLog
