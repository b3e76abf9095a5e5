import Mathlib.Logic.Function.Basic

/-!
# Locks and the threads inside them

A lock names the thread that holds it. It guards a part of the program when the threads in that
part are those that it names. A thread that takes the lock goes into the part, one that gives it
back leaves, and all other steps of a thread stay on their side.
-/

namespace Osquery.Foundation.Locks

variable {T P : Type*}

/-- The threads whose phase is inside are those that hold the lock. -/
def Guards (inside : P → Prop) (lock : Option T) (phase : T → P) : Prop :=
  ∀ t, inside (phase t) ↔ lock = some t

variable {inside : P → Prop} {lock : Option T} {phase : T → P} {t u : T} {p : P}

theorem guards_none {p : P} (h : ¬inside p) : Guards inside (none : Option T) fun _ => p :=
  fun _ => iff_of_false h nofun

/-- At most one thread is inside. -/
theorem Guards.unique (h : Guards inside lock phase) (ht : inside (phase t))
    (hu : inside (phase u)) : t = u :=
  Option.some.inj (((h t).mp ht).symm.trans ((h u).mp hu))

/-- No thread is inside while the lock is free. -/
theorem Guards.outside (h : Guards inside none phase) (t : T) : ¬inside (phase t) :=
  fun ht => nomatch (h t).mp ht

variable [DecidableEq T]

theorem Guards.acquire (h : Guards inside none phase) (hp : inside p) :
    Guards inside (some t) (Function.update phase t p) := by
  intro u
  by_cases hu : u = t
  · subst hu
    rw [Function.update_self]
    exact iff_of_true hp rfl
  · rw [Function.update_of_ne hu]
    exact iff_of_false (h.outside u) fun heq => hu (Option.some.inj heq).symm

theorem Guards.release (h : Guards inside lock phase) (ht : inside (phase t)) (hp : ¬inside p) :
    Guards inside none (Function.update phase t p) := by
  intro u
  by_cases hu : u = t
  · subst hu
    rw [Function.update_self]
    exact iff_of_false hp nofun
  · rw [Function.update_of_ne hu]
    exact iff_of_false (fun hinside => hu (h.unique hinside ht)) nofun

theorem Guards.keep (h : Guards inside lock phase) (hp : inside p ↔ inside (phase t)) :
    Guards inside lock (Function.update phase t p) := by
  intro u
  by_cases hu : u = t
  · subst hu
    rw [Function.update_self, hp]
    exact h u
  · rw [Function.update_of_ne hu]
    exact h u

end Osquery.Foundation.Locks
