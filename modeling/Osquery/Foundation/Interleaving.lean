import Osquery.Foundation.AtomicProgram
import Mathlib.Logic.Function.Basic

/-!
# Interleaved programs

Threads run programs over atomic operations on one shared state, and a schedule
says which thread performs its next operation. A discipline of a thread says
what it relies on while others act and what it guarantees for its own
operations. When every thread relies on what the others guarantee, the
assertions of every thread hold in every interleaving.

## Implementation notes

An operation may act differently in different threads, so that a state can hold
what a thread has seen. A guard restricts the runs that a statement is about:
the obligations of a thread are those at operations that the guard permits.
-/

namespace Osquery.Foundation.Interleaving

open AtomicProgram

universe u

/-- What an operation answers in a state, and the state it leaves. -/
abbrev Effect (ι : Type → Type u) (σ : Type) := (β : Type) → ι β → σ → β × σ

/-- The operations that are permitted in a state. -/
abbrev Guard (ι : Type → Type u) (σ : Type) := (β : Type) → ι β → σ → Prop

/-! ### Schedules -/

section Schedules

variable {τ σ : Type} {ι : Type → Type u} {α : τ → Type}

/-- What the threads have left to do, and the shared state. -/
structure Config (ι : Type → Type u) (σ : Type) (α : τ → Type) where
  pool : (t : τ) → Prog ι (α t)
  state : σ

variable [DecidableEq τ] (effect : τ → Effect ι σ)

/-- A thread performs its next operation; a thread that has returned waits. -/
def step (t : τ) (c : Config ι σ α) : Config ι σ α :=
  match c.pool t with
  | .ret _ => c
  | @Prog.op _ _ β o k =>
      let r := effect t β o c.state
      ⟨Function.update c.pool t (k r.1), r.2⟩

/-- The threads of a schedule take their turns. -/
def interleave (schedule : List τ) (c : Config ι σ α) : Config ι σ α :=
  schedule.foldl (fun c t => step effect t c) c

/-- The states that a schedule passes, both ends included. -/
def visited : List τ → Config ι σ α → List σ
  | [], c => [c.state]
  | t :: rest, c => c.state :: visited rest (step effect t c)

/-- The value that a program has returned. -/
def returned {γ : Type} : Prog ι γ → Option γ
  | .ret a => some a
  | .op _ _ => none

/-- The next operation of a program, if it has one, satisfies `P`. -/
def Starts {γ : Type} (P : (β : Type) → ι β → Prop) : Prog ι γ → Prop
  | .ret _ => True
  | @Prog.op _ _ β o _ => P β o

/-- The next operation of a thread is permitted. -/
def Next (permits : τ → Guard ι σ) (t : τ) (c : Config ι σ α) : Prop :=
  Starts (fun β o => permits t β o c.state) (c.pool t)

/-- Every operation of a schedule is permitted where it is performed. -/
def Permitted (permits : τ → Guard ι σ) : List τ → Config ι σ α → Prop
  | [], _ => True
  | t :: rest, c => Next permits t c ∧ Permitted permits rest (step effect t c)

instance decidableStarts {γ : Type} (P : (β : Type) → ι β → Prop) [∀ β o, Decidable (P β o)] :
    (p : Prog ι γ) → Decidable (Starts P p)
  | .ret _ => .isTrue trivial
  | @Prog.op _ _ β o _ => inferInstanceAs (Decidable (P β o))

instance (permits : τ → Guard ι σ) [∀ t β o s, Decidable (permits t β o s)] (t : τ)
    (c : Config ι σ α) : Decidable (Next permits t c) :=
  decidableStarts _ _

instance decidablePermitted (permits : τ → Guard ι σ) [∀ t β o s, Decidable (permits t β o s)] :
    (schedule : List τ) → (c : Config ι σ α) → Decidable (Permitted effect permits schedule c)
  | [], _ => .isTrue trivial
  | t :: rest, c =>
      @instDecidableAnd _ _ inferInstance (decidablePermitted permits rest (step effect t c))

/-- A schedule through states with a property is permitted where that is required too. -/
theorem Permitted.and {permits : τ → Guard ι σ} {P : σ → Prop} {schedule : List τ}
    {c : Config ι σ α} (h : Permitted effect permits schedule c)
    (hP : ∀ s ∈ visited effect schedule c, P s) :
    Permitted effect (fun t β o s => permits t β o s ∧ P s) schedule c := by
  induction schedule generalizing c with
  | nil => trivial
  | cons t rest ih =>
      refine ⟨?_, ih h.2 fun s hs => hP s (List.mem_cons_of_mem _ hs)⟩
      have hnext := h.1
      rw [Next] at hnext ⊢
      cases hop : c.pool t with
      | ret a => trivial
      | op o k =>
          rw [hop] at hnext
          exact ⟨hnext, hP _ List.mem_cons_self⟩

end Schedules

/-! ### Disciplines -/

/-- What a thread does, what it relies on and what it guarantees. -/
structure Discipline (ι : Type → Type u) (σ : Type) where
  effect : Effect ι σ
  permits : Guard ι σ
  rely : σ → σ → Prop
  guarantee : σ → σ → Prop
  rely_refl : ∀ s, rely s s
  rely_trans : ∀ {s s' s''}, rely s s' → rely s' s'' → rely s s''

namespace Discipline

variable {ι : Type → Type u} {σ : Type} {α β γ : Type} {D : Discipline ι σ}

/-- Whatever others do between its operations, the program keeps its guarantee
and ends with the assertion. -/
def Safe (D : Discipline ι σ) (Q : α → σ → Prop) : Prog ι α → σ → Prop
  | .ret a, s => ∀ s', D.rely s s' → Q a s'
  | @Prog.op _ _ β o k, s => ∀ s', D.rely s s' → D.permits β o s' →
      D.guarantee s' (D.effect β o s').2 ∧
        Safe D Q (k (D.effect β o s').1) (D.effect β o s').2

/-- An assertion that others cannot invalidate. -/
def Stable (D : Discipline ι σ) (P : σ → Prop) : Prop := ∀ s s', D.rely s s' → P s → P s'

theorem Stable.and {P P' : σ → Prop} (h : D.Stable P) (h' : D.Stable P') :
    D.Stable fun s => P s ∧ P' s :=
  fun s s' hr hs => ⟨h s s' hr hs.1, h' s s' hr hs.2⟩

theorem Safe.of_rely {Q : α → σ → Prop} {p : Prog ι α} {s s' : σ} (h : D.Safe Q p s)
    (hr : D.rely s s') : D.Safe Q p s' := by
  cases p with
  | ret a => exact fun s'' hr' => h s'' (D.rely_trans hr hr')
  | op o k => exact fun s'' hr' => h s'' (D.rely_trans hr hr')

theorem Safe.mono {Q Q' : α → σ → Prop} {p : Prog ι α} {s : σ} (h : D.Safe Q p s)
    (hQ : ∀ a s, Q a s → Q' a s) : D.Safe Q' p s := by
  induction p generalizing s with
  | ret a => exact fun s' hr => hQ a s' (h s' hr)
  | op o k ih =>
      intro s' hr hper
      obtain ⟨hg, hk⟩ := h s' hr hper
      exact ⟨hg, ih _ hk⟩

theorem safe_pure {Q : α → σ → Prop} {a : α} {s : σ} (hstable : D.Stable (Q a)) (h : Q a s) :
    D.Safe Q (pure a) s :=
  fun s' hr => hstable s s' hr h

/-- The second program starts where the assertion of the first holds. -/
theorem Safe.bind {Q : α → σ → Prop} {Q' : γ → σ → Prop} {p : Prog ι α} {f : α → Prog ι γ} {s : σ}
    (h : D.Safe Q p s) (hf : ∀ a s, Q a s → D.Safe Q' (f a) s) : D.Safe Q' (p >>= f) s := by
  change D.Safe Q' (p.bind f) s
  induction p generalizing s with
  | ret a => exact hf a s (h s (D.rely_refl s))
  | op o k ih =>
      intro s' hr hper
      obtain ⟨hg, hk⟩ := h s' hr hper
      exact ⟨hg, ih _ hk⟩

theorem Safe.map {Q : γ → σ → Prop} {f : α → γ} {p : Prog ι α} {s : σ}
    (h : D.Safe (fun a => Q (f a)) p s) : D.Safe Q (f <$> p) s := by
  rw [map_eq_pure_bind]
  induction p generalizing s with
  | ret a => exact h
  | op o k ih =>
      intro s' hr hper
      obtain ⟨hg, hk⟩ := h s' hr hper
      exact ⟨hg, ih _ hk⟩

/-- One operation keeps the guarantee and establishes a stable assertion. -/
theorem safe_perform {Q : β → σ → Prop} {o : ι β} {s : σ} (hstable : ∀ b, D.Stable (Q b))
    (h : ∀ s', D.rely s s' → D.permits β o s' →
      D.guarantee s' (D.effect β o s').2 ∧ Q (D.effect β o s').1 (D.effect β o s').2) :
    D.Safe Q (Prog.perform o) s := by
  intro s' hr hper
  obtain ⟨hg, hQ⟩ := h s' hr hper
  exact ⟨hg, fun s'' hr' => hstable _ _ s'' hr' hQ⟩

/-- A program whose operations all keep the guarantee and a stable assertion. -/
theorem safe_of_only {P : σ → Prop} {K : (β : Type) → ι β → Prop} (hstable : D.Stable P)
    (hK : ∀ {β : Type} (o : ι β) (s : σ), K β o → D.permits β o s → P s →
      D.guarantee s (D.effect β o s).2 ∧ P (D.effect β o s).2)
    {p : Prog ι α} (hp : p.Only K) {s : σ} (hs : P s) : D.Safe (fun _ => P) p s := by
  induction hp generalizing s with
  | ret a => exact fun s' hr => hstable s s' hr hs
  | op ho _ ih =>
      intro s' hr hper
      obtain ⟨hg, hP⟩ := hK _ s' ho hper (hstable s s' hr hs)
      exact ⟨hg, ih _ hP⟩

end Discipline

/-! ### All threads together -/

section Together

variable {τ σ : Type} {ι : Type → Type u} {α : τ → Type}

/-- Every thread relies on what the others guarantee. -/
def Compatible (D : τ → Discipline ι σ) : Prop :=
  ∀ t t' s s', t ≠ t' → (D t).guarantee s s' → (D t').rely s s'

variable {D : τ → Discipline ι σ} {Q : (t : τ) → α t → σ → Prop}

/-- Every thread is safe from the current state on. -/
def AllSafe (D : τ → Discipline ι σ) (Q : (t : τ) → α t → σ → Prop) (c : Config ι σ α) : Prop :=
  ∀ t, (D t).Safe (Q t) (c.pool t) c.state

/-- A thread that has returned has established its assertion. -/
theorem AllSafe.of_returned {c : Config ι σ α} (h : AllSafe D Q c) {t : τ} {a : α t}
    (hret : returned (c.pool t) = some a) : Q t a c.state := by
  have hsafe := h t
  cases hp : c.pool t with
  | ret a' =>
      rw [hp] at hret hsafe
      obtain rfl := Option.some.inj hret
      exact hsafe c.state ((D t).rely_refl _)
  | op o k =>
      rw [hp] at hret
      exact absurd hret (Option.some_ne_none a).symm

variable [DecidableEq τ]

theorem AllSafe.step (hD : Compatible D) {c : Config ι σ α} (h : AllSafe D Q c) {t : τ}
    (hnext : Next (fun t => (D t).permits) t c) :
    AllSafe D Q (step (fun t => (D t).effect) t c) := by
  have hsafe := h t
  rw [Next] at hnext
  rw [Interleaving.step]
  cases hop : c.pool t with
  | ret a => exact h
  | op o k =>
      rw [hop] at hnext hsafe
      obtain ⟨hg, hk⟩ := hsafe c.state ((D t).rely_refl _) hnext
      intro t'
      dsimp only
      by_cases ht : t' = t
      · subst ht
        rw [Function.update_self]
        exact hk
      · rw [Function.update_of_ne ht]
        exact (h t').of_rely (hD t t' _ _ (Ne.symm ht) hg)

/-- In every permitted interleaving all threads stay safe. -/
theorem AllSafe.interleave (hD : Compatible D) {c : Config ι σ α} (h : AllSafe D Q c)
    {schedule : List τ} (hper : Permitted (fun t => (D t).effect) (fun t => (D t).permits) schedule c) :
    AllSafe D Q (interleave (fun t => (D t).effect) schedule c) := by
  induction schedule generalizing c with
  | nil => exact h
  | cons t rest ih => exact ih (h.step hD hper.1) hper.2

end Together

end Osquery.Foundation.Interleaving
