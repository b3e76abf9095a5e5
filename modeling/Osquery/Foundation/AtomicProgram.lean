import Mathlib.Control.Basic
import Mathlib.Data.Nat.Notation

/-!
# Programs over atomic operations

A program either has returned or asks for one operation and continues with
the answer. The operations are the only places where another program can act
in between, so the same program text has a sequential meaning (`run`) and an
interleaved one.

## Implementation notes

The answer type of an operation is an index of the operation. A program is
therefore a tree that branches over all answers, also over those a particular
state never gives; statements about every answer need no state.
-/

namespace Osquery.Foundation.AtomicProgram

universe u

/-- A program over the operations `ι` that returns a value of `α`. -/
inductive Prog (ι : Type → Type u) (α : Type) : Type (max 1 u)
  | ret (a : α) : Prog ι α
  | op {β : Type} (o : ι β) (k : β → Prog ι α) : Prog ι α

namespace Prog

variable {ι : Type → Type u} {α β γ : Type}

/-- Sequential composition grafts the second program on every return of the first. -/
def bind : Prog ι α → (α → Prog ι γ) → Prog ι γ
  | ret a, f => f a
  | op o k, f => op o fun b => (k b).bind f

instance : Monad (Prog ι) where
  pure := ret
  bind := bind

/-- The program that performs one operation and returns its answer. -/
def perform (o : ι β) : Prog ι β := op o ret

theorem bind_ret (p : Prog ι α) : p.bind ret = p := by
  induction p with
  | ret a => rfl
  | op o k ih => exact congrArg (op o) (funext ih)

theorem bind_assoc {δ : Type} (p : Prog ι α) (f : α → Prog ι γ) (g : γ → Prog ι δ) :
    (p.bind f).bind g = p.bind fun a => (f a).bind g := by
  induction p with
  | ret a => rfl
  | op o k ih => exact congrArg (op o) (funext ih)

instance : LawfulMonad (Prog ι) :=
  LawfulMonad.mk' (Prog ι) (fun p => bind_ret p) (fun _ _ => rfl)
    (fun p f g => bind_assoc p f g)

end Prog

/-- What an operation answers in a state, and the state it leaves. -/
class Executes (ι : Type → Type u) (σ : outParam Type) where
  exec : {β : Type} → ι β → σ → β × σ

namespace Prog

variable {ι : Type → Type u} {σ : Type} [Executes ι σ] {α β γ : Type}

/-- Run a program with no other program acting in between. -/
def run : Prog ι α → σ → α × σ
  | ret a, s => (a, s)
  | op o k, s =>
      let r := Executes.exec o s
      (k r.1).run r.2

@[simp] theorem run_pure (a : α) (s : σ) : (pure a : Prog ι α).run s = (a, s) := rfl

@[simp] theorem run_perform (o : ι β) (s : σ) :
    (perform o).run s = Executes.exec o s := rfl

@[simp] theorem run_bind (p : Prog ι α) (f : α → Prog ι γ) (s : σ) :
    (p >>= f).run s = (f (p.run s).1).run (p.run s).2 := by
  change (p.bind f).run s = _
  induction p generalizing s with
  | ret a => rfl
  | op o k ih => exact ih _ _

@[simp] theorem run_map (p : Prog ι α) (f : α → γ) (s : σ) :
    (f <$> p).run s = (f (p.run s).1, (p.run s).2) := by
  rw [map_eq_pure_bind, run_bind]
  rfl

theorem run_ite (c : Prop) [Decidable c] (p q : Prog ι α) (s : σ) :
    (if c then p else q).run s = if c then p.run s else q.run s := by
  split <;> rfl

end Prog

/-! ### Programs restricted to some operations -/

namespace Prog

variable {ι : Type → Type u} {α γ : Type} {P : (β : Type) → ι β → Prop}

/-- Every operation the program can perform satisfies `P`, whatever the answers. -/
inductive Only (P : (β : Type) → ι β → Prop) : Prog ι α → Prop
  | ret (a : α) : Only P (.ret a)
  | op {β : Type} {o : ι β} {k : β → Prog ι α} (ho : P β o) (hk : ∀ b, Only P (k b)) :
      Only P (.op o k)

theorem only_pure (a : α) : Only P (pure a : Prog ι α) := .ret a

theorem only_perform {β : Type} {o : ι β} (ho : P β o) : Only P (perform o) :=
  .op ho fun b => .ret b

theorem only_bind {p : Prog ι α} {f : α → Prog ι γ} (hp : Only P p) (hf : ∀ a, Only P (f a)) :
    Only P (p >>= f) := by
  change Only P (p.bind f)
  induction hp with
  | ret a => exact hf a
  | op ho _ ih => exact .op ho ih

theorem only_map {p : Prog ι α} {f : α → γ} (hp : Only P p) : Only P (f <$> p) := by
  rw [map_eq_pure_bind]
  exact only_bind hp fun a => only_pure (f a)

/-- What every permitted operation keeps, the whole run keeps. -/
theorem run_invariant {σ : Type} [Executes ι σ] (I : σ → Prop)
    (hI : ∀ {β : Type} (o : ι β) (s : σ), P β o → I s → I (Executes.exec o s).2)
    {p : Prog ι α} (hp : Only P p) {s : σ} (hs : I s) : I (p.run s).2 := by
  induction hp generalizing s with
  | ret a => exact hs
  | op ho _ ih => exact ih _ (hI _ _ ho hs)

end Prog

end Osquery.Foundation.AtomicProgram

/-!
## Interrupted programs

A program may be stopped after any of its operations and started again from its
beginning over the state that it left. What holds throughout an undisturbed run
from every state where it holds, holds after any number of interruptions.
-/

namespace Osquery.Foundation.AtomicProgram

namespace Prog

universe u

variable {ι : Type → Type u} {σ : Type} [Executes ι σ] {α β γ : Type}

/-- The state after the first `n` operations of a run. -/
def stopped : ℕ → Prog ι α → σ → σ
  | 0, _, s => s
  | _ + 1, ret _, s => s
  | n + 1, op o k, s => (k (Executes.exec o s).1).stopped n (Executes.exec o s).2

/-- The state after runs from the beginning that were stopped one after the other. -/
def interrupted (p : Prog ι α) (stops : List ℕ) (s : σ) : σ :=
  stops.foldl (fun s n => p.stopped n s) s

/-- A predicate holds in the state before a run and after each of its operations. -/
def Throughout (I : σ → Prop) : Prog ι α → σ → Prop
  | ret _, s => I s
  | op o k, s => I s ∧ (k (Executes.exec o s).1).Throughout I (Executes.exec o s).2

variable {I : σ → Prop}

/-- A composition is taken apart at the state after its first program. -/
theorem Throughout.bind {p : Prog ι α} {f : α → Prog ι γ} {s : σ} (h : p.Throughout I s)
    (h' : (f (p.run s).1).Throughout I (p.run s).2) : (p >>= f).Throughout I s := by
  change (p.bind f).Throughout I s
  induction p generalizing s with
  | ret a => exact h'
  | op o k ih => exact ⟨h.1, ih _ h.2 h'⟩

theorem Throughout.mono {J : σ → Prop} {p : Prog ι α} {s : σ} (h : p.Throughout I s)
    (hIJ : ∀ s, I s → J s) : p.Throughout J s := by
  induction p generalizing s with
  | ret a => exact hIJ s h
  | op o k ih => exact ⟨hIJ s h.1, ih _ h.2⟩

theorem Throughout.run {p : Prog ι α} {s : σ} (h : p.Throughout I s) : I (p.run s).2 := by
  induction p generalizing s with
  | ret a => exact h
  | op o k ih => exact ih _ h.2

theorem Throughout.stopped {p : Prog ι α} {s : σ} (h : p.Throughout I s) (n : ℕ) :
    I (p.stopped n s) := by
  induction n generalizing p s with
  | zero =>
      cases p with
      | ret a => exact h
      | op o k => exact h.1
  | succ n ih =>
      cases p with
      | ret a => exact h
      | op o k => exact ih h.2

theorem interrupted_invariant {p : Prog ι α} (h : ∀ s, I s → p.Throughout I s) {s : σ} (hs : I s)
    (stops : List ℕ) : I (p.interrupted stops s) := by
  induction stops generalizing s with
  | nil => exact hs
  | cons n rest ih => exact ih ((h s hs).stopped n)

/-- A program can be stopped at every point of what follows its first part. -/
theorem exists_stopped_bind (p : Prog ι α) (s : σ) :
    ∃ m, ∀ {γ : Type} (f : α → Prog ι γ) (n : ℕ),
      (p >>= f).stopped (n + m) s = (f (p.run s).1).stopped n (p.run s).2 := by
  induction p generalizing s with
  | ret a => exact ⟨0, fun f n => rfl⟩
  | op o k ih =>
      obtain ⟨m, hm⟩ := ih (Executes.exec o s).1 (Executes.exec o s).2
      exact ⟨m + 1, fun f n => hm f n⟩

end Prog

end Osquery.Foundation.AtomicProgram
