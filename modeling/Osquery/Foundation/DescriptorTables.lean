import Mathlib.Data.List.Induction

/-!
# Descriptor tables and what is known of them

Every live process has a table from descriptors to what they refer to. An observer who is
told of the calls that succeed keeps a table of its own for some processes, with the file
of a descriptor. It adds entries and never changes one, and it is not told of exits. Its
tables are then right after a call exactly when the call finds no entry in its way that
names another file.

## Implementation notes

Descriptors that are open before the first call refer to things that the observer cannot
know, so they are only told apart from the opened files.
-/

namespace Osquery.Foundation.DescriptorTables

variable {π δ φ : Type*}

/-- What an open descriptor refers to. -/
inductive Target (φ : Type*)
  | opened (file : φ)
  | inherited

/-- The tables of the live processes. -/
abbrev Tables (π δ φ : Type*) := π → Option (δ → Option (Target φ))

/-- The calls that change tables, with their results. -/
inductive Call (π δ φ : Type*)
  | opens (process : π) (fd : δ) (file : φ)
  | closes (process : π) (fd : δ)
  | dups (process : π) (fd new_fd : δ)
  | replaces (process : π) (fd new_fd : δ)
  | forks (process child : π)
  | exits (process : π)

/-- What the observer keeps of the processes that it has met. -/
abbrev Known (π δ φ : Type*) := π → Option (δ → Option φ)

namespace Tables

def target (t : Tables π δ φ) (p : π) (d : δ) : Option (Target φ) :=
  (t p).bind fun table => table d

theorem ne_none_of_target {t : Tables π δ φ} {p : π} {d : δ} (h : t.target p d ≠ none) :
    t p ≠ none := by
  intro hp
  exact h (by simp [target, hp])

variable [DecidableEq π] [DecidableEq δ]

def put (t : Tables π δ φ) (p : π) (d : δ) (x : Option (Target φ)) : Tables π δ φ :=
  Function.update t p ((t p).map fun table => Function.update table d x)

theorem target_put_self {t : Tables π δ φ} {p : π} (h : t p ≠ none) (d : δ)
    (x : Option (Target φ)) : (t.put p d x).target p d = x := by
  obtain ⟨table, htable⟩ := Option.ne_none_iff_exists'.mp h
  simp [target, put, htable]

theorem target_put_of_ne (t : Tables π δ φ) {p p' : π} {d d' : δ} (h : p' = p → d' ≠ d)
    (x : Option (Target φ)) : (t.put p d x).target p' d' = t.target p' d' := by
  by_cases hp : p' = p
  · subst p'
    cases hp : t p <;> simp [target, put, hp, h rfl]
  · simp [target, put, hp]

end Tables

/-! ### Calls -/

namespace Call

variable (t : Tables π δ φ)

/-- A call of its kind can succeed. -/
def Succeeds : Call π δ φ → Prop
  | opens p fd _ => t p ≠ none ∧ t.target p fd = none
  | closes p fd => t.target p fd ≠ none
  | dups p fd new_fd => t.target p fd ≠ none ∧ t.target p new_fd = none
  | replaces p fd _ => t.target p fd ≠ none
  | forks p child => t p ≠ none ∧ t child = none
  | exits p => t p ≠ none

variable [DecidableEq π] [DecidableEq δ]

def after : Call π δ φ → Tables π δ φ
  | opens p fd file => t.put p fd (some (.opened file))
  | closes p fd => t.put p fd none
  | dups p fd new_fd => t.put p new_fd (t.target p fd)
  | replaces p fd new_fd => t.put p new_fd (t.target p fd)
  | forks p child => Function.update t child (t p)
  | exits p => Function.update t p none

end Call

/-! ### The observer -/

namespace Known

def file (k : Known π δ φ) (p : π) (d : δ) : Option φ := (k p).bind fun table => table d

variable [DecidableEq π] [DecidableEq δ]

/-- An entry that is there stays. -/
def save (k : Known π δ φ) (p : π) (d : δ) (f : φ) : Known π δ φ :=
  Function.update k p
    (some (Function.update ((k p).getD fun _ => none) d ((k.file p d).or (some f))))

def remove (k : Known π δ φ) (p : π) (d : δ) : Known π δ φ :=
  Function.update k p ((k p).map fun table => Function.update table d none)

def copy (k : Known π δ φ) (p : π) (d new : δ) : Known π δ φ :=
  match k.file p d with
  | none => k
  | some f => k.save p new f

/-- A table that is there stays. -/
def copyAll (k : Known π δ φ) (p child : π) : Known π δ φ :=
  Function.update k child ((k child).or (k p))

/-- What the observer does when it is told of a call. -/
def note (k : Known π δ φ) : Call π δ φ → Known π δ φ
  | .opens p fd file => k.save p fd file
  | .closes p fd => k.remove p fd
  | .dups p fd new_fd => k.copy p fd new_fd
  | .replaces p fd new_fd => k.copy p fd new_fd
  | .forks p child => k.copyAll p child
  | .exits _ => k

theorem file_save_self (k : Known π δ φ) (p : π) (d : δ) (f : φ) :
    (k.save p d f).file p d = (k.file p d).or (some f) := by
  simp [file, save]

theorem file_save_of_ne (k : Known π δ φ) {p p' : π} {d d' : δ} (h : p' = p → d' ≠ d) (f : φ) :
    (k.save p d f).file p' d' = k.file p' d' := by
  by_cases hp : p' = p
  · subst p'
    cases hp : k p <;> simp [file, save, hp, h rfl]
  · simp [file, save, hp]

theorem file_remove_of_ne (k : Known π δ φ) {p p' : π} {d d' : δ} (h : p' = p → d' ≠ d) :
    (k.remove p d).file p' d' = k.file p' d' := by
  by_cases hp : p' = p
  · subst p'
    cases hp : k p <;> simp [file, remove, hp, h rfl]
  · simp [file, remove, hp]

theorem file_copy_of_ne (k : Known π δ φ) {p p' : π} {d new d' : δ} (h : p' = p → d' ≠ new) :
    (k.copy p d new).file p' d' = k.file p' d' := by
  unfold copy
  cases k.file p d with
  | none => rfl
  | some f => exact k.file_save_of_ne h f

end Known

/-! ### Being right about the opened files -/

/-- The observer knows every descriptor of an opened file. -/
def Tracks (t : Tables π δ φ) (k : Known π δ φ) : Prop :=
  ∀ p d f, t.target p d = some (.opened f) → k.file p d = some f

/-- The observer has no other file where a call is going to put one. -/
def Vacant (t : Tables π δ φ) (k : Known π δ φ) : Call π δ φ → Prop
  | .opens p fd file => ∀ g, k.file p fd = some g → g = file
  | .dups p fd new_fd | .replaces p fd new_fd =>
      ∀ f, t.target p fd = some (.opened f) → ∀ g, k.file p new_fd = some g → g = f
  | .forks p child =>
      k child ≠ none → ∀ d f, t.target p d = some (.opened f) → k.file child d = some f
  | .closes _ _ | .exits _ => True

variable [DecidableEq π] {t : Tables π δ φ} {k : Known π δ φ}

theorem tracks_fork_iff (h : Tracks t k) (p child : π) :
    Tracks (Function.update t child (t p)) (k.copyAll p child) ↔
      (k child ≠ none → ∀ d f, t.target p d = some (.opened f) → k.file child d = some f) := by
  have hothers : ∀ p', p' ≠ child → ∀ d,
      Tables.target (Function.update t child (t p)) p' d = t.target p' d ∧
        (k.copyAll p child).file p' d = k.file p' d := by
    intro p' hne d
    simp [Tables.target, Known.file, Known.copyAll, hne]
  have hnew : ∀ d, Tables.target (Function.update t child (t p)) child d = t.target p d := by
    simp [Tables.target]
  constructor
  · intro hafter hknown d f hf
    obtain ⟨table, htable⟩ := Option.ne_none_iff_exists'.mp hknown
    have hfile := hafter child d f ((hnew d).trans hf)
    simpa [Known.file, Known.copyAll, htable] using hfile
  · intro hvacant p' d f hf
    by_cases hne : p' = child
    · subst p'
      rw [hnew] at hf
      cases hknown : k child with
      | none => simpa [Known.file, Known.copyAll, hknown] using h p d f hf
      | some table =>
          have hfile := hvacant (by simp [hknown]) d f hf
          simpa [Known.file, Known.copyAll, hknown] using hfile
    · rw [(hothers p' hne d).1] at hf
      rw [(hothers p' hne d).2]
      exact h p' d f hf

variable [DecidableEq δ]

theorem Tracks.put (h : Tracks t k) {p : π} {d : δ} {x : Option (Target φ)} {k' : Known π δ φ}
    (hp : t p ≠ none) (hx : ∀ f, x = some (.opened f) → k'.file p d = some f)
    (hk : ∀ p' d', (p' = p → d' ≠ d) → k'.file p' d' = k.file p' d') :
    Tracks (t.put p d x) k' := by
  intro p' d' f hf
  by_cases hne : p' = p → d' ≠ d
  · rw [t.target_put_of_ne hne] at hf
    rw [hk p' d' hne]
    exact h p' d' f hf
  · obtain ⟨rfl, hd⟩ := Classical.not_imp.mp hne
    obtain rfl := not_not.mp hd
    rw [Tables.target_put_self hp] at hf
    exact hx f hf

theorem tracks_put_save_iff (h : Tracks t k) {p : π} (hp : t p ≠ none) (d : δ) (f : φ) :
    Tracks (t.put p d (some (.opened f))) (k.save p d f) ↔ ∀ g, k.file p d = some g → g = f := by
  constructor
  · intro hafter g hg
    have hfile := hafter p d f (Tables.target_put_self hp d _)
    rw [k.file_save_self, hg] at hfile
    simpa using hfile
  · intro hvacant
    apply h.put hp
    · intro g hg
      obtain rfl : f = g := by simpa using hg
      rw [k.file_save_self]
      cases hfile : k.file p d with
      | none => rfl
      | some g => simp [hvacant g hfile]
    · exact fun p' d' hne => k.file_save_of_ne hne f

theorem tracks_put_copy_iff (h : Tracks t k) {p : π} {d : δ} (hd : t.target p d ≠ none) (new : δ) :
    Tracks (t.put p new (t.target p d)) (k.copy p d new) ↔
      ∀ f, t.target p d = some (.opened f) → ∀ g, k.file p new = some g → g = f := by
  have hp := Tables.ne_none_of_target hd
  cases htarget : t.target p d with
  | none => exact absurd htarget hd
  | some x =>
      cases x with
      | opened f =>
          rw [Known.copy, h p d f htarget]
          simpa using tracks_put_save_iff h hp new f
      | inherited =>
          simp only [Option.some.injEq, reduceCtorEq, false_implies, implies_true, iff_true]
          exact h.put hp (by simp) fun p' d' hne => k.file_copy_of_ne hne

/-- A call leaves the observer right exactly when nothing was in its way. -/
theorem tracks_note_iff (h : Tracks t k) {c : Call π δ φ} (hc : c.Succeeds t) :
    Tracks (c.after t) (k.note c) ↔ Vacant t k c := by
  cases c with
  | opens p fd file => exact tracks_put_save_iff h hc.1 fd file
  | closes p fd =>
      refine iff_of_true (h.put (Tables.ne_none_of_target hc) (by simp) ?_) trivial
      exact fun p' d' hne => k.file_remove_of_ne hne
  | dups p fd new_fd => exact tracks_put_copy_iff h hc.1 new_fd
  | replaces p fd new_fd => exact tracks_put_copy_iff h hc new_fd
  | forks p child => exact tracks_fork_iff h p child
  | exits p =>
      refine iff_of_true ?_ trivial
      intro p' d f hf
      by_cases hp : p' = p
      · simp [Call.after, Tables.target, hp] at hf
      · apply h p' d f
        simpa [Call.after, Tables.target, hp] using hf

/-! ### Runs -/

section Splits

variable {ε : Type*} {P : List ε → ε → Prop}

theorem forall_split_cons {a : ε} {events : List ε} :
    (∀ seen e rest, a :: events = seen ++ e :: rest → P seen e) ↔
      P [] a ∧ ∀ seen e rest, events = seen ++ e :: rest → P (a :: seen) e := by
  constructor
  · intro h
    refine ⟨h [] a events rfl, ?_⟩
    rintro seen e rest rfl
    exact h (a :: seen) e rest rfl
  · rintro ⟨hfirst, hnext⟩ seen e rest hevents
    cases seen with
    | nil =>
        obtain ⟨rfl, -⟩ := List.cons_eq_cons.mp hevents
        exact hfirst
    | cons b seen =>
        obtain ⟨rfl, hrest⟩ := List.cons_eq_cons.mp hevents
        exact hnext seen e rest hrest

end Splits

section Runs

variable {σ ε : Type*} {step : σ → ε → σ} {Good : σ → Prop} {May Safe : σ → ε → Prop}

/-- When a step from a good state leads to a good one exactly when it is safe, a run has
good states only exactly when its steps are safe. -/
theorem good_iff_safe (hstep : ∀ s e, Good s → May s e → (Good (step s e) ↔ Safe s e)) {s : σ}
    (hs : Good s) {events : List ε}
    (hmay : ∀ seen e rest, events = seen ++ e :: rest → May (seen.foldl step s) e) :
    (∀ seen rest, events = seen ++ rest → Good (seen.foldl step s)) ↔
      ∀ seen e rest, events = seen ++ e :: rest → Safe (seen.foldl step s) e := by
  have hnext : ∀ seen e rest, events = seen ++ e :: rest → Good (seen.foldl step s) →
      (Good ((seen ++ [e]).foldl step s) ↔ Safe (seen.foldl step s) e) := by
    intro seen e rest hevents hgood
    rw [List.foldl_append]
    exact hstep _ e hgood (hmay seen e rest hevents)
  constructor
  · intro hall seen e rest hevents
    apply (hnext seen e rest hevents (hall seen _ hevents)).mp
    exact hall (seen ++ [e]) rest (by simpa using hevents)
  · intro hsafe seen
    induction seen using List.reverseRecOn with
    | nil => exact fun _ _ => hs
    | append_singleton seen e ih =>
        intro rest hevents
        rw [List.append_assoc, List.singleton_append] at hevents
        exact (hnext seen e rest hevents (ih _ hevents)).mpr (hsafe seen e rest hevents)

end Runs

end Osquery.Foundation.DescriptorTables

/-!
## Runs with steps that may fail

A run is a sequence of steps, each of which leads to a state or fails. It succeeds exactly
when no step fails from the state that the steps before it lead to, and a property of states
that every safe step keeps holds wherever safe steps lead.
-/

namespace Osquery.Foundation.PartialRuns

open DescriptorTables

variable {σ ε : Type*} {step : σ → ε → Option σ}

theorem foldlM_cons_eq_some_iff {s s' : σ} {e : ε} {events : List ε} :
    (e :: events).foldlM step s = some s' ↔
      ∃ next, step s e = some next ∧ events.foldlM step next = some s' := by
  rw [List.foldlM_cons, Option.bind_eq_bind, Option.bind_eq_some_iff]

/-- The states that lead on through the events that were seen. -/
theorem forall_reached_cons_iff {s next : σ} {e : ε} (h : step s e = some next) {P : σ → Prop}
    {seen : List ε} :
    (∀ s', (e :: seen).foldlM step s = some s' → P s') ↔
      ∀ s', seen.foldlM step next = some s' → P s' := by
  simp only [foldlM_cons_eq_some_iff, h, Option.some.injEq, exists_eq_left']

theorem isSome_foldlM_iff {s : σ} {events : List ε} :
    (events.foldlM step s).isSome ↔
      ∀ seen e rest, events = seen ++ e :: rest →
        ∀ s', seen.foldlM step s = some s' → (step s' e).isSome := by
  induction events generalizing s with
  | nil => simp
  | cons e events ih =>
      rw [forall_split_cons (P := fun seen e => ∀ s', seen.foldlM step s = some s' →
        (step s' e).isSome)]
      cases hnext : step s e with
      | none =>
          refine iff_of_false ?_ fun h => ?_
          · simp [List.foldlM_cons, hnext]
          · have hfirst := h.1 s rfl
            rw [hnext] at hfirst
            cases hfirst
      | some next =>
          simp only [forall_reached_cons_iff hnext]
          rw [List.foldlM_cons, hnext, Option.bind_eq_bind, Option.bind_some, ih]
          constructor
          · refine fun h => ⟨fun s' hs' => ?_, h⟩
            obtain rfl : s = s' := by simpa using hs'
            rw [hnext]
            rfl
          · exact fun h => h.2

theorem good_of_safe {Good : σ → Prop} {Safe : σ → ε → Prop}
    (hstep : ∀ s e s', Good s → Safe s e → step s e = some s' → Good s') {s s' : σ}
    {events : List ε} (hs : Good s)
    (hsafe : ∀ seen e rest, events = seen ++ e :: rest →
      ∀ r, seen.foldlM step s = some r → Safe r e)
    (h : events.foldlM step s = some s') : Good s' := by
  induction events generalizing s with
  | nil =>
      obtain rfl : s = s' := by simpa using h
      exact hs
  | cons e events ih =>
      rw [forall_split_cons (P := fun seen e => ∀ r, seen.foldlM step s = some r → Safe r e)]
        at hsafe
      obtain ⟨next, hnext, hrest⟩ := foldlM_cons_eq_some_iff.mp h
      simp only [forall_reached_cons_iff hnext] at hsafe
      exact ih (hstep s e next hs (hsafe.1 s rfl) hnext) hsafe.2 hrest

/-- A property that every step keeps. -/
theorem good_of_steps {Good : σ → Prop}
    (hstep : ∀ s e s', Good s → step s e = some s' → Good s') {s s' : σ} {events : List ε}
    (hs : Good s) (h : events.foldlM step s = some s') : Good s' :=
  @good_of_safe _ _ _ Good (fun _ _ => True) (fun s e s' hgood _ => hstep s e s' hgood) _ _ _ hs
    (fun _ _ _ _ _ _ => trivial) h

/-! ### Steps with output -/

section Output

variable {ρ : Type*} (f : σ → ε → Option (σ × List ρ))

/-- What a step puts out is added to what is there. -/
def emitting (s : σ × List ρ) (e : ε) : Option (σ × List ρ) :=
  (f s.1 e).map fun r => (r.1, s.2 ++ r.2)

/-- What is there already stays before what a run puts out. -/
theorem foldlM_emitting (events : List ε) (s : σ × List ρ) :
    events.foldlM (emitting f) s =
      (events.foldlM (emitting f) (s.1, [])).map fun r => (r.1, s.2 ++ r.2) := by
  induction events generalizing s with
  | nil => simp
  | cons e events ih =>
      rw [List.foldlM_cons, List.foldlM_cons, emitting, emitting]
      cases f s.1 e with
      | none => rfl
      | some r =>
          simp only [Option.map_some, Option.bind_eq_bind, Option.bind_some, List.nil_append]
          rw [ih (r.1, s.2 ++ r.2), ih r, Option.map_map]
          apply congrArg fun g => Option.map g (events.foldlM (emitting f) (r.1, []))
          ext1 after
          simp [List.append_assoc]

/-- Several runs, one after another, are one run. -/
theorem foldlM_emitting_flatten (lists : List (List ε)) (s : σ × List ρ) :
    lists.foldlM (emitting fun s events => events.foldlM (emitting f) (s, [])) s =
      lists.flatten.foldlM (emitting f) s := by
  induction lists generalizing s with
  | nil => rfl
  | cons events lists ih =>
      rw [List.foldlM_cons, List.flatten_cons, List.foldlM_append, foldlM_emitting f events s,
        emitting]
      cases events.foldlM (emitting f) (s.1, []) with
      | none => rfl
      | some r => exact ih (r.1, s.2 ++ r.2)

end Output

end Osquery.Foundation.PartialRuns
