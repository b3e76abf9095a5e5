import Osquery.Foundation.Duties

/-!
# The threads of the event publishers

Every publisher that was set up runs in a thread of its own, until it fails or is ending. Then the
thread tears it down. When a publisher is deregistered before its thread has started, the
deregistration tears it down instead. A thread and a deregistration look at a flag of the other
one without a common lock. So a publisher is never torn down while it runs, but it can be torn
down twice: exactly when it is found not started although another party is to tear it down, or
has torn it down.

## Implementation notes

Events are not disabled. The publishers are those that were registered at the beginning; there is
one for each key. A step is one access to what the threads share, or one call of the publisher. A
deregistration holds the lock of the factory from its first step to its last one.
-/

namespace Osquery.EventSubscribers.PublisherThreads

open Foundation Foundation.Simulation

variable {K T : Type*}

/-- A thread of `EventFactory::run`. -/
inductive Phase (K : Type*)
  | idle
  | created (k : K)
  | found (k : K)
  /-- The publisher has not started yet. -/
  | passed (k : K)
  | looping (k : K)
  | running (k : K)
  | leaving (k : K)
  | ended
  deriving DecidableEq

/-- A call of `deregisterEventPublisher`. -/
inductive Deregistration (K : Type*)
  | idle
  | ending (k : K)
  | tearing (k : K)
  deriving DecidableEq

structure State (K T : Type*) where
  event_pubs_ : K → Bool
  ending_ : K → Bool
  started_ : K → Bool := fun _ => false
  /-- How often a publisher was torn down. -/
  tearDowns : K → ℕ := fun _ => 0
  thread : T → Phase K := fun _ => .idle
  deregistration : Deregistration K := .idle
  /-- The publishers that were deregistered, and those that were torn down by that. -/
  deregistered : K → Bool := fun _ => false
  removed : K → Bool := fun _ => false

/-- A publisher that could not be set up is put into an ending state. -/
def State.registered (failed : K → Bool) : State K T where
  event_pubs_ _ := true
  ending_ := failed

inductive Action (K T : Type*)
  | delay (t : T) (k : K)
  | run (t : T) (ok : Bool)
  | deregister (k : K)
  | remove
  | clear

namespace State

variable (s : State K T)

/-- The end of `EventFactory::end`. -/
def clear : State K T :=
  match s.deregistration with
  | .idle => { s with event_pubs_ := fun _ => false }
  | _ => s

section Removal

variable [DecidableEq K]

/-- The beginning of `deregisterEventPublisher`. -/
def deregister (k : K) : State K T :=
  match s.deregistration with
  | .idle =>
      if s.event_pubs_ k then
        { s with
          ending_ := Function.update s.ending_ k true
          deregistration := .ending k
          deregistered := Function.update s.deregistered k true }
      else s
  | _ => s

/-- A publisher that has started is only stopped. -/
def remove : State K T :=
  match s.deregistration with
  | .idle => s
  | .ending k => { s with deregistration := if s.started_ k then .idle else .tearing k }
  | .tearing k =>
      { s with
        event_pubs_ := Function.update s.event_pubs_ k false
        tearDowns := Function.update s.tearDowns k (s.tearDowns k + 1)
        deregistration := .idle
        removed := Function.update s.removed k true }

end Removal

variable [DecidableEq T]

def go (t : T) (phase : Phase K) : State K T :=
  { s with thread := Function.update s.thread t phase }

/-- The publishers are given to threads one by one. -/
def delay (t : T) (k : K) : State K T :=
  match s.thread t with
  | .idle => if s.event_pubs_ k && !s.ending_ k then s.go t (.created k) else s
  | _ => s

/-- A thread waits for the lock of the factory. -/
def find (t : T) (k : K) : State K T :=
  match s.deregistration with
  | .idle => s.go t (if s.event_pubs_ k then .found k else .ended)
  | _ => s

/-- The next step of a thread; `ok` is what the publisher returns. -/
def run [DecidableEq K] (t : T) (ok : Bool) : State K T :=
  match s.thread t with
  | .created k => s.find t k
  | .found k => s.go t (if s.started_ k then .ended else .passed k)
  | .passed k => { s.go t (.looping k) with started_ := Function.update s.started_ k true }
  | .looping k => s.go t (if s.ending_ k then .leaving k else .running k)
  | .running k => s.go t (if ok then .looping k else .leaving k)
  | .leaving k =>
      { s.go t .ended with tearDowns := Function.update s.tearDowns k (s.tearDowns k + 1) }
  | .idle | .ended => s

end State

def step [DecidableEq K] [DecidableEq T] (s : State K T) : Action K T → State K T
  | .delay t k => s.delay t k
  | .run t ok => s.run t ok
  | .deregister k => s.deregister k
  | .remove => s.remove
  | .clear => s.clear

/-- A publisher is found not started although a thread has found it so before and has not started
it yet, or its deregistration tears it down or has done so. -/
def Clash (s : State K T) : Action K T → Prop
  | .run t _ => ∃ k, s.thread t = .found k ∧ s.started_ k = false ∧
      ((∃ t', s.thread t' = .passed k) ∨ s.deregistration = .tearing k ∨ s.removed k = true)
  | .remove => ∃ k, s.deregistration = .ending k ∧ s.started_ k = false ∧
      ∃ t, s.thread t = .passed k
  | _ => False

/-! ### What the flags tell -/

/-- The publisher that the thread has started and not torn down. -/
def Phase.entered : Phase K → Option K
  | .looping k | .running k | .leaving k => some k
  | _ => none

/-- The deregistration tears the publisher down, or has done so. -/
def State.Removing (s : State K T) (k : K) : Prop :=
  s.deregistration = .tearing k ∨ s.removed k = true

structure Inv (s : State K T) : Prop where
  started : ∀ t k, (s.thread t).entered = some k → s.started_ k = true
  ending : ∀ k, s.deregistration = .ending k ∨ s.Removing k → s.ending_ k = true
  stopped : ∀ k, s.Removing k → ∀ t, s.thread t ≠ .running k
  torn : ∀ k, s.tearDowns k ≠ 0 → s.started_ k = true ∨ s.removed k = true
  listed : ∀ k, s.deregistration = .ending k → s.event_pubs_ k = true
  removed : ∀ k, s.removed k = true → s.event_pubs_ k = false
  deregistered : ∀ k, s.deregistered k = true →
    s.started_ k = true ∨ s.removed k = true ∨ s.deregistration = .ending k ∨
      s.deregistration = .tearing k

variable {s : State K T}

theorem inv_registered (failed : K → Bool) : Inv (State.registered failed : State K T) where
  started t k h := nomatch h
  ending k h := by obtain h | h | h := h <;> cases h
  stopped k h := by obtain h | h := h <;> cases h
  torn k h := absurd rfl h
  listed k h := nomatch h
  removed k h := nomatch h
  deregistered k h := nomatch h

theorem Inv.clear (h : Inv s) : Inv s.clear := by
  unfold State.clear
  split
  · next hidle =>
      refine { h with listed := fun k hk => ?_, removed := fun _ _ => rfl }
      rw [hidle] at hk
      cases hk
  · exact h

/-- More publishers have started. -/
theorem Inv.starts (h : Inv s) {started_ : K → Bool}
    (hle : ∀ k, s.started_ k = true → started_ k = true) : Inv { s with started_ } where
  started t k hentered := hle k (h.started t k hentered)
  ending := h.ending
  stopped := h.stopped
  torn k htorn := (h.torn k htorn).imp_left (hle k)
  listed := h.listed
  removed := h.removed
  deregistered k hk := (h.deregistered k hk).imp_left (hle k)

/-- A publisher that has not started, and is ending, will not run. -/
theorem Inv.tear (h : Inv s) {k : K} (hending : s.deregistration = .ending k)
    (hstarted : s.started_ k = false) : Inv { s with deregistration := .tearing k } := by
  constructor
  · exact h.started
  · rintro k' (hk' | hk' | hk')
    · cases hk'
    · cases hk'
      exact h.ending k (.inl hending)
    · exact h.ending k' (.inr (.inr hk'))
  · rintro k' (hk' | hk') t
    · cases hk'
      intro hrunning
      have hentered := h.started t k (by rw [hrunning]; rfl)
      rw [hstarted] at hentered
      cases hentered
    · exact h.stopped k' (.inr hk') t
  · exact h.torn
  · rintro k' hk'
    cases hk'
  · exact h.removed
  · intro k' hk'
    have hbefore := h.deregistered k' hk'
    rw [hending] at hbefore
    obtain hstarted' | hremoved | hk' | hk' := hbefore
    · exact .inl hstarted'
    · exact .inr (.inl hremoved)
    · cases hk'
      exact .inr (.inr (.inr rfl))
    · cases hk'

/-- The deregistration of a publisher that has started or is removed may end. -/
theorem Inv.idle (h : Inv s) (hdone : ∀ k, s.deregistration = .ending k ∨
      s.deregistration = .tearing k → s.started_ k = true ∨ s.removed k = true) :
    Inv { s with deregistration := .idle } := by
  constructor
  · exact h.started
  · rintro k (hk | hk | hk)
    · cases hk
    · cases hk
    · exact h.ending k (.inr (.inr hk))
  · rintro k (hk | hk) t
    · cases hk
    · exact h.stopped k (.inr hk) t
  · exact h.torn
  · rintro k hk
    cases hk
  · exact h.removed
  · intro k hk
    obtain hstarted | hremoved | hother := h.deregistered k hk
    · exact .inl hstarted
    · exact .inr (.inl hremoved)
    · exact (hdone k hother).imp_right .inl

section Removal

variable [DecidableEq K]

theorem update_true {f : K → Bool} {k : K} (k' : K) (h : f k = true) :
    Function.update f k' true k = true := by
  rw [Function.update_apply]
  split
  · rfl
  · exact h

theorem Inv.deregister (h : Inv s) (k : K) : Inv (s.deregister k) := by
  unfold State.deregister
  split
  · next hidle =>
      split
      · next hlisted =>
          constructor
          · exact h.started
          · rintro k' (hk' | hk' | hk')
            · cases hk'
              exact Function.update_self ..
            · cases hk'
            · exact update_true k (h.ending k' (.inr (.inr hk')))
          · rintro k' (hk' | hk') t
            · cases hk'
            · exact h.stopped k' (.inr hk') t
          · exact h.torn
          · rintro k' hk'
            cases hk'
            exact hlisted
          · exact h.removed
          · intro k' hk'
            by_cases hne : k' = k
            · rw [hne]
              exact .inr (.inr (.inl rfl))
            · have hbefore := h.deregistered k' ((Function.update_of_ne hne ..).symm.trans hk')
              rw [hidle] at hbefore
              obtain hstarted | hremoved | hk' | hk' := hbefore
              · exact .inl hstarted
              · exact .inr (.inl hremoved)
              · cases hk'
              · cases hk'
      · exact h
  · exact h

theorem Inv.tornDown (h : Inv s) {k : K} (htearing : s.deregistration = .tearing k) :
    Inv { s with
      event_pubs_ := Function.update s.event_pubs_ k false
      tearDowns := Function.update s.tearDowns k (s.tearDowns k + 1)
      removed := Function.update s.removed k true } := by
  have hremoving (k' : K) (hk' : s.deregistration = .tearing k' ∨
      Function.update s.removed k true k' = true) : s.Removing k' := by
    by_cases hne : k' = k
    · exact .inl (hne ▸ htearing)
    · exact hk'.imp_right (Function.update_of_ne hne ..).symm.trans
  constructor
  · exact h.started
  · exact fun k' hk' => h.ending k' (hk'.imp_right (hremoving k'))
  · exact fun k' hk' => h.stopped k' (hremoving k' hk')
  · intro k' htorn
    by_cases hne : k' = k
    · exact .inr (hne ▸ Function.update_self ..)
    · have hbefore := h.torn k' ((Function.update_of_ne hne ..).symm.trans_ne htorn)
      exact hbefore.imp_right (update_true k)
  · intro k' hk'
    rw [htearing] at hk'
    cases hk'
  · intro k' hk'
    change Function.update s.event_pubs_ k false k' = false
    by_cases hne : k' = k
    · rw [hne, Function.update_self]
    · rw [Function.update_of_ne hne]
      exact h.removed k' ((Function.update_of_ne hne ..).symm.trans hk')
  · exact fun k' hk' => (h.deregistered k' hk').imp_right (.imp_left (update_true k))

theorem Inv.remove (h : Inv s) : Inv s.remove := by
  unfold State.remove
  split
  · exact h
  · next k hending =>
      cases hstarted : s.started_ k with
      | true =>
          refine h.idle fun k' hk' => ?_
          rw [hending] at hk'
          obtain hk' | hk' := hk' <;> cases hk'
          exact .inl hstarted
      | false => exact h.tear hending hstarted
  · next k htearing =>
      refine (h.tornDown htearing).idle fun k' hk' => ?_
      rw [htearing] at hk'
      obtain hk' | hk' := hk' <;> cases hk'
      exact .inr (Function.update_self ..)

end Removal

section Steps

variable [DecidableEq T]

theorem thread_go_self (t : T) (phase : Phase K) : (s.go t phase).thread t = phase :=
  Function.update_self ..

theorem thread_go_of_ne {t t' : T} (hne : t' ≠ t) (phase : Phase K) :
    (s.go t phase).thread t' = s.thread t' := Function.update_of_ne hne ..

/-- A thread goes on without a change of the flags. -/
theorem Inv.go (h : Inv s) (t : T) {phase : Phase K}
    (hstarted : ∀ k, phase.entered = some k → s.started_ k = true)
    (hrunning : ∀ k, phase = .running k → ¬s.Removing k) : Inv (s.go t phase) where
  started t' k hentered := by
    by_cases hne : t' = t
    · rw [hne, thread_go_self] at hentered
      exact hstarted k hentered
    · rw [thread_go_of_ne hne] at hentered
      exact h.started t' k hentered
  ending := h.ending
  stopped k hremoving t' hrun := by
    by_cases hne : t' = t
    · rw [hne, thread_go_self] at hrun
      exact hrunning k hrun hremoving
    · rw [thread_go_of_ne hne] at hrun
      exact h.stopped k hremoving t' hrun
  torn := h.torn
  listed := h.listed
  removed := h.removed
  deregistered := h.deregistered

/-- A thread that has not started a publisher, or has ended. -/
theorem Inv.go_outside (h : Inv s) (t : T) {phase : Phase K} (hphase : phase.entered = none) :
    Inv (s.go t phase) := by
  refine h.go t ?_ ?_
  · intro k hentered
    rw [hphase] at hentered
    cases hentered
  · rintro k rfl
    cases hphase

/-- A thread that stays with a publisher that it has started runs it only while it is not ending,
and such a publisher is not being removed. -/
theorem Inv.go_inside (h : Inv s) (t : T) {phase : Phase K} {k : K}
    (hphase : phase.entered = some k) (hstarted : s.started_ k = true)
    (hending : phase = .running k → s.ending_ k = false) : Inv (s.go t phase) := by
  refine h.go t ?_ ?_
  · intro k' hentered
    rw [hphase] at hentered
    cases hentered
    exact hstarted
  · rintro k' rfl hremoving
    cases hphase
    have hflag := h.ending k (.inr hremoving)
    rw [hending rfl] at hflag
    cases hflag

theorem Inv.delay (h : Inv s) (t : T) (k : K) : Inv (s.delay t k) := by
  unfold State.delay
  split
  · split
    · exact h.go_outside t rfl
    · exact h
  · exact h

theorem Inv.find (h : Inv s) (t : T) (k : K) : Inv (s.find t k) := by
  unfold State.find
  split
  · exact h.go_outside t (by cases s.event_pubs_ k <;> rfl)
  · exact h

variable [DecidableEq K]

theorem Inv.start (h : Inv s) (t : T) (k : K) :
    Inv { s.go t (.looping k) with started_ := Function.update s.started_ k true } := by
  have hstarts := h.starts fun _ => update_true k
  exact hstarts.go_inside t rfl (Function.update_self k true s.started_) nofun

theorem Inv.tearDown (h : Inv s) (t : T) {k : K} (hstarted : s.started_ k = true) :
    Inv { s.go t .ended with
      tearDowns := Function.update s.tearDowns k (s.tearDowns k + 1) } := by
  have hended : Inv (s.go t .ended) := h.go_outside t rfl
  refine { hended with torn := fun k' htorn => ?_ }
  by_cases hk' : k' = k
  · exact .inl (hk' ▸ hstarted)
  · exact h.torn k' ((Function.update_of_ne hk' ..).symm.trans_ne htorn)

theorem Inv.run (h : Inv s) (t : T) (ok : Bool) : Inv (s.run t ok) := by
  unfold State.run
  split
  · next k _ => exact h.find t k
  · next k _ => exact h.go_outside t (by cases s.started_ k <;> rfl)
  · next k _ => exact h.start t k
  · next k hlooping =>
      have hstarted : s.started_ k = true := h.started t k (by rw [hlooping]; rfl)
      cases hending : s.ending_ k with
      | true => exact h.go_inside t rfl hstarted nofun
      | false => exact h.go_inside t rfl hstarted fun _ => hending
  · next k hrunning =>
      have hstarted : s.started_ k = true := h.started t k (by rw [hrunning]; rfl)
      cases ok with
      | true => exact h.go_inside t rfl hstarted nofun
      | false => exact h.go_inside t rfl hstarted nofun
  · next k hleaving => exact h.tearDown t (h.started t k (by rw [hleaving]; rfl))
  · exact h
  · exact h

theorem Inv.step (h : Inv s) (action : Action K T) : Inv (step s action) := by
  cases action with
  | delay t k => exact h.delay t k
  | run t ok => exact h.run t ok
  | deregister k => exact h.deregister k
  | remove => exact h.remove
  | clear => exact h.clear

/-- No publisher is run while its deregistration tears it down, or later. -/
def State.Safe (s : State K T) : Prop := ∀ k, s.Removing k → ∀ t, s.thread t ≠ .running k

/-- In every run, with any number of threads for a publisher, a deregistration tears down only
what no thread runs, and no thread runs it afterwards. -/
theorem safe_foldl (failed : K → Bool) (actions : List (Action K T)) :
    (actions.foldl PublisherThreads.step (State.registered failed)).Safe :=
  (List.foldlRecOn actions PublisherThreads.step (inv_registered failed)
    fun _ h action _ => h.step action).stopped

end Steps

/-! ### Who tears a publisher down -/

def Phase.owes : Phase K → Option K
  | .passed k | .looping k | .running k | .leaving k => some k
  | _ => none

def Deregistration.owes : Deregistration K → Option K
  | .tearing k => some k
  | _ => none

/-- The threads and the deregistration, each with the publisher that it has to tear down. -/
def State.duties (s : State K T) : Duties (Option T) K where
  owes p := p.elim s.deregistration.owes fun t => (s.thread t).owes
  done := s.tearDowns

/-- A publisher that has started or is removed was torn down, or will be. -/
structure Sound (s : State K T) : Prop extends Inv s where
  owed : ∀ k, s.started_ k = true ∨ s.removed k = true → ¬s.duties.Free k

theorem sound_registered (failed : K → Bool) : Sound (State.registered failed : State K T) where
  toInv := inv_registered failed
  owed k h := by obtain h | h := h <;> cases h

theorem once_registered (failed : K → Bool) :
    (State.registered failed : State K T).duties.Once where
  unique p p' k hp _ := by cases p <;> cases hp
  undone p k hp := by cases p <;> cases hp
  done_le _ := Nat.zero_le 1

theorem Phase.owes_eq_some {phase : Phase K} {k : K} (h : phase.owes = some k) :
    phase = .passed k ∨ phase.entered = some k := by
  cases phase with
  | passed k' =>
      cases h
      exact .inl rfl
  | looping k' | running k' | leaving k' => exact .inr h
  | idle | created k' | found k' | ended => cases h

/-- What it takes that nobody has torn down a publisher that has not started, or will do so. -/
theorem Sound.free_iff (h : Sound s) {k : K} (hstarted : s.started_ k = false) :
    s.duties.Free k ↔ ¬((∃ t, s.thread t = .passed k) ∨ s.deregistration = .tearing k ∨
      s.removed k = true) := by
  constructor
  · rintro hfree (⟨t, hpassed⟩ | htearing | hremoved)
    · refine hfree.1 (some t) ?_
      change (s.thread t).owes = some k
      rw [hpassed]
      rfl
    · refine hfree.1 none ?_
      change s.deregistration.owes = some k
      rw [htearing]
      rfl
    · exact h.owed k (.inr hremoved) hfree
  · intro hnone
    rw [not_or, not_or] at hnone
    constructor
    · intro p hp
      cases p with
      | none =>
          change s.deregistration.owes = some k at hp
          cases hderegistration : s.deregistration with
          | tearing k' =>
              rw [hderegistration] at hp
              cases hp
              exact hnone.2.1 hderegistration
          | idle | ending k' =>
              rw [hderegistration] at hp
              cases hp
      | some t =>
          obtain hpassed | hentered := Phase.owes_eq_some hp
          · exact hnone.1 ⟨t, hpassed⟩
          · rw [h.started t k hentered] at hstarted
            cases hstarted
    · by_contra htorn
      obtain hstarted' | hremoved := h.torn k htorn
      · rw [hstarted'] at hstarted
        cases hstarted
      · exact hnone.2.2 hremoved

/-- Every publisher was deregistered, and no thread goes on. -/
structure State.Finished (s : State K T) : Prop where
  thread : ∀ t, s.thread t = .idle ∨ s.thread t = .ended
  deregistration : s.deregistration = .idle
  deregistered : ∀ k, s.deregistered k = true

theorem State.Finished.owes (h : s.Finished) (p : Option T) : s.duties.owes p = none := by
  cases p with
  | none =>
      change s.deregistration.owes = none
      rw [h.deregistration]
      rfl
  | some t =>
      change (s.thread t).owes = none
      obtain hidle | hended := h.thread t
      · rw [hidle]
        rfl
      · rw [hended]
        rfl

/-- In the end every publisher was torn down. -/
theorem Sound.one_le_tearDowns (h : Sound s) (hfinished : s.Finished) (k : K) :
    1 ≤ s.tearDowns k := by
  have hflags : s.started_ k = true ∨ s.removed k = true := by
    obtain hstarted | hremoved | hother | hother := h.deregistered k (hfinished.deregistered k)
    · exact .inl hstarted
    · exact .inr hremoved
    · rw [hfinished.deregistration] at hother
      cases hother
    · rw [hfinished.deregistration] at hother
      cases hother
  have hnot := h.owed k hflags
  rw [Nat.one_le_iff_ne_zero]
  intro hzero
  refine hnot ⟨fun p hp => ?_, hzero⟩
  rw [hfinished.owes p] at hp
  cases hp

/-- Duties with the same discharges. -/
theorem duties_eq {s' : State K T} (howes : s'.duties.owes = s.duties.owes)
    (htorn : s'.tearDowns = s.tearDowns) : s'.duties = s.duties :=
  congrArg₂ Duties.mk howes htorn

theorem owes_some {t : T} {phase : Phase K} (h : s.thread t = phase) :
    s.duties.owes (some t) = phase.owes := congrArg Phase.owes h

theorem owes_none {d : Deregistration K} (h : s.deregistration = d) :
    s.duties.owes none = d.owes := congrArg Deregistration.owes h

/-- Only a thread that has found a publisher can clash. -/
theorem not_clash_run {t : T} {ok : Bool} (h : ∀ k, s.thread t ≠ .found k) :
    ¬Clash s (.run t ok) := by
  rintro ⟨k, hfound, -⟩
  exact h k hfound

section Moves

variable [DecidableEq T]

theorem owes_go (s : State K T) (t : T) (phase : Phase K) :
    (s.go t phase).duties.owes = Function.update s.duties.owes (some t) phase.owes := by
  funext p
  cases p with
  | none => exact (Function.update_of_ne (Option.some_ne_none t).symm ..).symm
  | some t' =>
      by_cases hne : t' = t
      · rw [hne, Function.update_self]
        exact congrArg Phase.owes (thread_go_self t phase)
      · rw [Function.update_of_ne (fun heq => hne (Option.some.inj heq))]
        exact congrArg Phase.owes (thread_go_of_ne hne phase)

theorem duties_go {t : T} {phase : Phase K} (h : phase.owes = (s.thread t).owes) :
    (s.go t phase).duties = s.duties := by
  refine duties_eq ?_ rfl
  rw [owes_go, h]
  exact Function.update_eq_self (some t) s.duties.owes

theorem duties_find {t : T} {k : K} (hcreated : s.thread t = .created k) :
    (s.find t k).duties = s.duties := by
  unfold State.find
  split
  · refine duties_go ?_
    rw [hcreated]
    cases s.event_pubs_ k <;> rfl
  · rfl

/-- What the deregistration has to do is changed alone. -/
theorem owes_deregistration (s : State K T) (d : Deregistration K) :
    (State.duties { s with deregistration := d }).owes =
      Function.update s.duties.owes none d.owes := by
  funext p
  cases p with
  | none => exact (Function.update_self none d.owes s.duties.owes).symm
  | some t => exact (Function.update_of_ne (Option.some_ne_none t) d.owes s.duties.owes).symm

theorem duties_deregistration {d : Deregistration K} (h : d.owes = s.deregistration.owes) :
    State.duties { s with deregistration := d } = s.duties := by
  refine duties_eq ?_ rfl
  rw [owes_deregistration, h]
  exact Function.update_eq_self none s.duties.owes

variable [DecidableEq K]

theorem move_delay (s : State K T) (t : T) (k : K) :
    Duties.Move (¬Clash s (.delay t k)) s.duties (s.delay t k).duties := by
  refine .of_eq ?_ id
  unfold State.delay
  split
  · next hidle =>
      split
      · exact duties_go (by rw [hidle]; rfl)
      · rfl
  · rfl

/-- A thread that finds the publisher not started is to tear it down. -/
theorem Sound.move_found (h : Sound s) {t : T} {ok : Bool} {k : K}
    (hfound : s.thread t = .found k) : Duties.Move (¬Clash s (.run t ok)) s.duties
      (s.go t (if s.started_ k then .ended else .passed k)).duties := by
  cases hstarted : s.started_ k with
  | true =>
      refine .of_eq (duties_go (by rw [hfound]; rfl)) ?_
      rintro ⟨k', hfound', hstarted', -⟩
      rw [hfound] at hfound'
      cases hfound'
      rw [hstarted] at hstarted'
      cases hstarted'
  | false =>
      have htake : (s.go t (.passed k)).duties = s.duties.take (some t) k :=
        congrArg₂ Duties.mk (owes_go s t (.passed k)) rfl
      have hclash : Clash s (.run t ok) ↔ ((∃ t, s.thread t = .passed k) ∨
          s.deregistration = .tearing k ∨ s.removed k = true) := by
        constructor
        · rintro ⟨k', hfound', -, hother⟩
          rw [hfound] at hfound'
          cases hfound'
          exact hother
        · exact fun hother => ⟨k, hfound, hstarted, hother⟩
      rw [if_neg Bool.false_ne_true, htake]
      exact .take (some t) k (owes_some hfound) (hclash.not.trans (h.free_iff hstarted).symm)

theorem Sound.move_run (h : Sound s) (t : T) (ok : Bool) :
    Duties.Move (¬Clash s (.run t ok)) s.duties (s.run t ok).duties := by
  unfold State.run
  split
  · next k hcreated =>
      exact .of_eq (duties_find hcreated) (not_clash_run (by rw [hcreated]; nofun))
  · next k hfound => exact h.move_found hfound
  · next k hpassed =>
      have hduties : (s.go t (.looping k)).duties = s.duties := duties_go (by rw [hpassed]; rfl)
      exact .of_eq hduties (not_clash_run (by rw [hpassed]; nofun))
  · next k hlooping =>
      refine .of_eq (duties_go ?_) (not_clash_run (by rw [hlooping]; nofun))
      rw [hlooping]
      cases s.ending_ k <;> rfl
  · next k hrunning =>
      refine .of_eq (duties_go ?_) (not_clash_run (by rw [hrunning]; nofun))
      rw [hrunning]
      cases ok <;> rfl
  · next k hleaving =>
      have hdischarge : State.duties { s.go t .ended with
          tearDowns := Function.update s.tearDowns k (s.tearDowns k + 1) } =
          s.duties.discharge (some t) k := congrArg₂ Duties.mk (owes_go s t .ended) rfl
      rw [hdischarge]
      exact .discharge (some t) k (owes_some hleaving) (not_clash_run (by rw [hleaving]; nofun))
  · next hidle => exact .rest (not_clash_run (by rw [hidle]; nofun))
  · next hended => exact .rest (not_clash_run (by rw [hended]; nofun))

theorem move_clear (s : State K T) : Duties.Move (¬Clash s .clear) s.duties s.clear.duties := by
  refine .of_eq ?_ id
  unfold State.clear
  split <;> rfl

theorem move_deregister (s : State K T) (k : K) :
    Duties.Move (¬Clash s (.deregister k)) s.duties (s.deregister k).duties := by
  refine .of_eq ?_ id
  unfold State.deregister
  split
  · next hidle =>
      split
      · exact duties_deregistration (d := .ending k) (by rw [hidle]; rfl)
      · rfl
  · rfl

/-- A deregistration that finds the publisher not started is to tear it down. -/
theorem Sound.move_ending (h : Sound s) {k : K} (hending : s.deregistration = .ending k) :
    Duties.Move (¬Clash s .remove) s.duties (State.duties { s with
      deregistration := if s.started_ k then .idle else .tearing k }) := by
  cases hstarted : s.started_ k with
  | true =>
      refine .of_eq (duties_deregistration (d := .idle) (by rw [hending]; rfl)) ?_
      rintro ⟨k', hending', hstarted', -⟩
      rw [hending] at hending'
      cases hending'
      rw [hstarted] at hstarted'
      cases hstarted'
  | false =>
      have hclash : Clash s .remove ↔ ((∃ t, s.thread t = .passed k) ∨
          s.deregistration = .tearing k ∨ s.removed k = true) := by
        constructor
        · rintro ⟨k', hending', -, hpassed⟩
          rw [hending] at hending'
          cases hending'
          exact .inl hpassed
        · rintro (hpassed | htearing | hremoved)
          · exact ⟨k, hending, hstarted, hpassed⟩
          · rw [hending] at htearing
            cases htearing
          · have hlisted := h.listed k hending
            rw [h.removed k hremoved] at hlisted
            cases hlisted
      have htake : State.duties { s with deregistration := .tearing k } = s.duties.take none k :=
        congrArg₂ Duties.mk (owes_deregistration s (.tearing k)) rfl
      rw [if_neg Bool.false_ne_true, htake]
      exact .take none k (owes_none hending) (hclash.not.trans (h.free_iff hstarted).symm)

theorem Sound.move_remove (h : Sound s) :
    Duties.Move (¬Clash s .remove) s.duties s.remove.duties := by
  have hclash (hother : ∀ k, s.deregistration ≠ .ending k) : ¬Clash s .remove := by
    rintro ⟨k, hending, -⟩
    exact hother k hending
  unfold State.remove
  split
  · next hidle => exact .rest (hclash (by rw [hidle]; nofun))
  · next k hending => exact h.move_ending hending
  · next k htearing =>
      have hdischarge : State.duties { s with
          event_pubs_ := Function.update s.event_pubs_ k false
          tearDowns := Function.update s.tearDowns k (s.tearDowns k + 1)
          deregistration := .idle
          removed := Function.update s.removed k true } = s.duties.discharge none k :=
        congrArg₂ Duties.mk (owes_deregistration s .idle) rfl
      rw [hdischarge]
      exact .discharge none k (owes_none htearing) (hclash (by rw [htearing]; nofun))

theorem Sound.move_step (h : Sound s) (action : Action K T) :
    Duties.Move (¬Clash s action) s.duties (step s action).duties := by
  cases action with
  | delay t k => exact move_delay s t k
  | run t ok => exact h.move_run t ok
  | deregister k => exact move_deregister s k
  | remove => exact h.move_remove
  | clear => exact move_clear s

/-! ### Whole runs -/

/-- A publisher that starts or is removed is one that a party has to tear down. -/
theorem flags_step (s : State K T) (action : Action K T) (k : K)
    (h : (step s action).started_ k = true ∨ (step s action).removed k = true) :
    (s.started_ k = true ∨ s.removed k = true) ∨ ∃ p, s.duties.owes p = some k := by
  unfold PublisherThreads.step at h
  split at h
  · unfold State.delay at h
    split at h
    · split at h <;> exact .inl h
    · exact .inl h
  · next t ok =>
      unfold State.run at h
      split at h
      · unfold State.find at h
        split at h <;> exact .inl h
      · exact .inl h
      · next k' hpassed =>
          by_cases hne : k = k'
          · exact .inr ⟨some t, hne ▸ owes_some hpassed⟩
          · exact .inl (h.imp_left (Function.update_of_ne hne ..).symm.trans)
      all_goals exact .inl h
  · unfold State.deregister at h
    split at h
    · split at h <;> exact .inl h
    · exact .inl h
  · unfold State.remove at h
    split at h
    · exact .inl h
    · exact .inl h
    · next k' htearing =>
        by_cases hne : k = k'
        · exact .inr ⟨none, hne ▸ owes_none htearing⟩
        · exact .inl (h.imp_right (Function.update_of_ne hne ..).symm.trans)
  · unfold State.clear at h
    split at h <;> exact .inl h

theorem Sound.step (h : Sound s) (action : Action K T) : Sound (step s action) where
  toInv := h.toInv.step action
  owed k hk := by
    refine (h.move_step action).not_free ?_
    obtain hbefore | ⟨p, hp⟩ := flags_step s action k hk
    · exact h.owed k hbefore
    · exact fun hfree => hfree.1 p hp

/-- When all publishers are deregistered and all threads have ended, every publisher was torn down
exactly once exactly if no check in the run was a clash. -/
theorem torn_down_once_iff (failed : K → Bool) (actions : List (Action K T))
    (hfinished : (actions.foldl PublisherThreads.step (State.registered failed)).Finished) :
    (∀ k, (actions.foldl PublisherThreads.step (State.registered failed)).tearDowns k = 1) ↔
      Throughout PublisherThreads.step (fun s action => ¬Clash s action) (State.registered failed)
        actions := by
  have hsound : Sound (actions.foldl PublisherThreads.step (State.registered failed)) :=
    List.foldlRecOn actions PublisherThreads.step (sound_registered failed)
      fun _ h action _ => h.step action
  rw [← Duties.done_le_one_iff_throughout State.duties (fun _ action (h : Sound _) => h.step action)
    (fun _ action h => h.move_step action) (sound_registered failed) (once_registered failed)
    actions hfinished.owes]
  refine forall_congr' fun k => ?_
  have hone := hsound.one_le_tearDowns hfinished k
  exact ⟨fun heq => heq.le, fun hle => Nat.le_antisymm hle hone⟩

end Moves

/-- The publisher runs once before it is deregistered. -/
def runOnce : List (Action Unit Unit) :=
  .delay () () :: (List.replicate 5 (.run () true) ++ [.deregister (), .remove] ++
    List.replicate 2 (.run () true) ++ [.clear])

theorem torn_down_runOnce :
    (∀ k, (runOnce.foldl step (State.registered fun _ => false)).tearDowns k = 1) ↔
      Throughout step (fun s action => ¬Clash s action) (State.registered fun _ => false)
        runOnce :=
  torn_down_once_iff (fun _ => false) runOnce ⟨fun _ => .inr rfl, rfl, fun _ => rfl⟩

/-- The deregistration comes between the check of the thread and its start. -/
example : ((.delay () () :: (List.replicate 2 (.run () true) ++
    [.deregister (), .remove, .remove] ++ List.replicate 3 (.run () true)) :
      List (Action Unit Unit)).foldl step
        (State.registered fun _ => false)).tearDowns () = 2 := rfl

end Osquery.EventSubscribers.PublisherThreads
