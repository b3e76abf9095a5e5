import Osquery.Dispatcher.Services

/-!
# Stopping the services

A stop sets a flag that keeps services from being added, and then interrupts the services that
are listed when it holds the lock. A call that has looked at the flag before and lists its
service afterwards is not kept out: its service is the only kind that a stop misses.

## Implementation notes

The stop that a statement is about is given by where it sets the flag and where it takes the
lock. A join resets the flag when it ends, so the statements are about runs in which none does.
-/

namespace Osquery.Dispatcher.Stopping

open Foundation.Simulation Services

variable {C S J : Type} {service : C → S}

/-- The call may go on to create a thread, or has done so. -/
def Passed (call : Call) : Prop := call = .admitted ∨ call.Made

/-- The call has passed the checks and has not listed its service. -/
def InWindow (call : Call) : Prop := call = .admitted ∨ call = .created

/-- A stop has set the flag, and it can take the lock. -/
def CanLock (s : State C S J) : Prop := 0 < s.stopping_calls ∧ s.pending = none

/-- Every service of the list is interrupted, or the stop that holds the lock comes to it. -/
def Reached (services : List S) (s : State C S J) : Prop :=
  ∀ x ∈ services, s.interrupted_ x = true ∨ ∃ rest, s.pending = some rest ∧ x ∈ rest

/-! ### What one step does -/

/-- A call of `addService` only goes on, and passes the checks only if no stop has set the flag. -/
structure CallGoesOn (stopping_ : Bool) (before after : Call) : Prop where
  passed : Passed before → Passed after
  accepted : before = .accepted → after = .accepted
  admitted : Passed after → Passed before ∨ stopping_ = false

theorem CallGoesOn.refl (stopping_ : Bool) (call : Call) : CallGoesOn stopping_ call call :=
  ⟨id, id, .inl⟩

theorem CallGoesOn.of_not_passed {stopping_ : Bool} {before after : Call}
    (hbefore : ¬ Passed before) (hafter : ¬ Passed after) :
    CallGoesOn stopping_ before after :=
  ⟨fun h => absurd h hbefore, fun h => absurd (.inr (.inr h)) hbefore, fun h => absurd h hafter⟩

theorem not_passed_iff (call : Call) :
    ¬ Passed call ↔ call = .started ∨ call = .unrun ∨ call = .refused := by
  unfold Passed Call.Made
  cases call <;> decide

/-- The step of one call. -/
theorem callGoesOn_update [DecidableEq C] {stopping_ : Bool} {call : C → Call} {c : C}
    {next : Call} (h : CallGoesOn stopping_ (call c) next) (c' : C) :
    CallGoesOn stopping_ (call c') (Function.update call c next c') := by
  by_cases hc : c' = c
  · rw [hc, Function.update_self]
    exact h
  · rw [Function.update_of_ne hc]
    exact .refl ..

theorem interrupt_call [DecidableEq S] (s : State C S J) (x : S) :
    (interrupt s x).call = s.call := by
  unfold interrupt
  split <;> rfl

theorem interrupt_thread [DecidableEq S] (s : State C S J) (x : S) :
    (interrupt s x).thread = s.thread := by
  unfold interrupt
  split <;> rfl

theorem interrupt_stopping [DecidableEq S] (s : State C S J) (x : S) :
    (interrupt s x).stopping_ = s.stopping_ := by
  unfold interrupt
  split <;> rfl

theorem interrupt_interrupted [DecidableEq S] (s : State C S J) (x y : S) :
    (interrupt s x).interrupted_ y = true ↔ y = x ∨ s.interrupted_ y = true := by
  unfold interrupt
  split
  · rename_i h
    exact ⟨.inr, fun hor => hor.elim (fun heq => heq ▸ h) id⟩
  · by_cases hy : y = x
    · exact iff_of_true (by rw [hy]; exact Function.update_self ..) (.inl hy)
    · change Function.update s.interrupted_ x true y = true ↔ _
      rw [Function.update_of_ne hy]
      exact (or_iff_right hy).symm

/-- What is left of a state after a run in which the flag stays set. -/
structure Since (service : C → S) (early late : State C S J) : Prop where
  passed : ∀ c, Passed (late.call c) ↔ Passed (early.call c)
  accepted : ∀ c, early.call c = .accepted → late.call c = .accepted
  removed : ∀ c, early.thread c = .removed → late.thread c = .removed
  interrupted : ∀ x, early.interrupted_ x = true → late.interrupted_ x = true
  stopping : late.stopping_ = true
  inv : Inv service late

/-- A thread that uses its service at the end, with a call that was done before, has used it. -/
theorem Since.inUse {early late : State C S J} (h : Since service early late)
    (hinv : Inv service early) {c : C} (hcall : early.call c = .accepted)
    (hused : (late.thread c).InUse) : (early.thread c).InUse := by
  have hthread := (hinv.made c).mpr (.inr hcall)
  cases hearly : early.thread c with
  | none => exact absurd hearly hthread
  | removed =>
      rw [h.removed c hearly] at hused
      exact hused
  | _ => trivial

variable [DecidableEq C] [DecidableEq S] [DecidableEq J]

theorem step_call (s : State C S J) (action : Action C J) (c : C) :
    CallGoesOn s.stopping_ (s.call c) ((step service s action).call c) := by
  cases action with
  | checkRun c' =>
      simp only [step, checkRun]
      split
      · rename_i hcall
        refine callGoesOn_update (.of_not_passed ?_ ?_) c
        · exact (not_passed_iff _).mpr (.inl hcall)
        · split <;> simp [not_passed_iff]
      · exact .refl ..
  | checkStopping c' =>
      simp only [step, checkStopping]
      split
      · rename_i hcall
        refine callGoesOn_update ?_ c
        have hbefore : ¬ Passed (s.call c') := (not_passed_iff _).mpr (.inr (.inl hcall))
        cases hstopping : s.stopping_ with
        | true => exact .of_not_passed hbefore (by simp [not_passed_iff])
        | false =>
            exact ⟨fun h => absurd h hbefore, fun h => absurd (.inr (.inr h)) hbefore,
              fun _ => .inr rfl⟩
      · exact .refl ..
  | createThread c' =>
      simp only [step, createThread]
      split
      · rename_i hcall
        refine callGoesOn_update
          ⟨fun _ => .inr (.inl rfl), fun h => ?_, fun _ => .inl (.inl hcall)⟩ c
        rw [hcall] at h
        cases h
      · exact .refl ..
  | pushBack c' =>
      simp only [step, pushBack]
      split
      · rename_i hcall
        exact callGoesOn_update ⟨fun _ => .inr (.inr rfl), fun _ => rfl,
          fun _ => .inl (.inr (.inl hcall.1))⟩ c
      · exact .refl ..
  | interruptNext =>
      simp only [step, interruptNext]
      repeat' split
      all_goals first | exact .refl .. | rw [interrupt_call]; exact .refl ..
  | _ =>
      simp only [step, enter, finish, removeService, beginJoin, takeThread, joined, endJoin,
        beginStop, lockStop]
      repeat' split
      all_goals exact .refl ..

theorem removed_update {thread : C → Thread} {c c' : C} {next : Thread} (hc : thread c ≠ .removed)
    (h : thread c' = .removed) : Function.update thread c next c' = .removed := by
  have hne : c' ≠ c := by
    rintro rfl
    exact hc h
  rwa [Function.update_of_ne hne]

/-- A thread that has taken its service off the list is done. -/
theorem step_removed {s : State C S J} (hinv : Inv service s) (action : Action C J) {c : C}
    (h : s.thread c = .removed) : (step service s action).thread c = .removed := by
  cases action with
  | createThread c' =>
      simp only [step, createThread]
      split
      · rename_i hcall
        refine removed_update (fun hremoved => ?_) h
        rcases (hinv.made c').mp (by rw [hremoved]; nofun) with hmade | hmade
        all_goals rw [hcall] at hmade; cases hmade
      · exact h
  | enter c' =>
      simp only [step, enter]
      split
      · rename_i hthread
        exact removed_update (by rw [hthread]; nofun) h
      · exact h
  | finish c' =>
      simp only [step, finish]
      split
      · rename_i hthread
        exact removed_update (by rw [hthread]; nofun) h
      · exact h
  | removeService c' =>
      simp only [step, removeService]
      split
      · rename_i hthread
        exact removed_update (by rw [hthread.1]; nofun) h
      · exact h
  | interruptNext =>
      simp only [step, interruptNext]
      repeat' split
      all_goals first | exact h | rw [interrupt_thread]; exact h
  | _ =>
      simp only [step, checkRun, checkStopping, pushBack, beginJoin, takeThread, joined, endJoin,
        beginStop, lockStop]
      repeat' split
      all_goals exact h

theorem step_interrupted (s : State C S J) (action : Action C J) {x : S}
    (h : s.interrupted_ x = true) : (step service s action).interrupted_ x = true := by
  cases action with
  | interruptNext =>
      simp only [step, interruptNext]
      repeat' split
      all_goals first | exact h | exact (interrupt_interrupted ..).mpr (.inr h)
  | _ =>
      simp only [step, checkRun, checkStopping, createThread, pushBack, enter, finish,
        removeService, beginJoin, takeThread, joined, endJoin, beginStop, lockStop]
      repeat' split
      all_goals exact h

/-- Only a join that ends resets the flag. -/
theorem step_stopping {s : State C S J} {action : Action C J} (hjoin : ∀ j, action ≠ .endJoin j)
    (h : s.stopping_ = true) : (step service s action).stopping_ = true := by
  cases action with
  | endJoin j => exact absurd rfl (hjoin j)
  | beginStop => rfl
  | interruptNext =>
      simp only [step, interruptNext]
      repeat' split
      all_goals first | exact h | rw [interrupt_stopping]; exact h
  | _ =>
      simp only [step, checkRun, checkStopping, createThread, pushBack, enter, finish,
        removeService, beginJoin, takeThread, joined, lockStop]
      repeat' split
      all_goals exact h

theorem step_reached {services : List S} {s : State C S J} (h : Reached services s)
    (action : Action C J) : Reached services (step service s action) := by
  cases action with
  | lockStop =>
      simp only [step, lockStop]
      split
      · rename_i hfree
        intro x hx
        refine .inl ((h x hx).resolve_right ?_)
        rintro ⟨rest, hpending, -⟩
        rw [hfree.2] at hpending
        cases hpending
      · exact h
  | interruptNext =>
      simp only [step, interruptNext]
      split
      · exact h
      · rename_i hpending
        intro x hx
        refine .inl ((h x hx).resolve_right ?_)
        rintro ⟨rest, hrest, hmem⟩
        obtain rfl := Option.some.inj (hpending.symm.trans hrest)
        cases hmem
      · rename_i y rest hpending
        split
        · intro x hx
          have hnow : (interrupt s y).interrupted_ x = true ∨ x ∈ rest := by
            rw [interrupt_interrupted]
            rcases h x hx with hdone | ⟨rest', hrest, hmem⟩
            · exact .inl (.inr hdone)
            · obtain rfl := Option.some.inj (hpending.symm.trans hrest)
              exact (List.mem_cons.mp hmem).imp_left .inl
          exact hnow.imp_right fun hmem => ⟨rest, rfl, hmem⟩
        · exact h
  | _ =>
      simp only [step, checkRun, checkStopping, createThread, pushBack, enter, finish,
        removeService, beginJoin, takeThread, joined, endJoin, beginStop]
      repeat' split
      all_goals exact h

/-! ### What a run does -/

theorem Since.step {early late : State C S J} (h : Since service early late)
    {action : Action C J} (hclash : ¬ Clash service late action)
    (hjoin : ∀ j, action ≠ .endJoin j) :
    Since service early (Services.step service late action) := by
  have hcall : ∀ c, CallGoesOn late.stopping_ (late.call c)
      ((Services.step service late action).call c) := step_call late action
  refine ⟨fun c => ?_, fun c hearly => (hcall c).accepted (h.accepted c hearly),
    fun c hearly => step_removed h.inv action (h.removed c hearly),
    fun x hearly => step_interrupted late action (h.interrupted x hearly),
    step_stopping hjoin h.stopping, h.inv.step action hclash⟩
  rw [← h.passed c]
  refine ⟨fun hpassed => ((hcall c).admitted hpassed).resolve_right ?_, (hcall c).passed⟩
  rw [h.stopping]
  nofun

theorem Since.run {early late : State C S J} (h : Since service early late)
    {actions : List (Action C J)}
    (hclash : Throughout (Services.step service) (fun s action => ¬ Clash service s action) late
      actions)
    (hjoin : ∀ action ∈ actions, ∀ j, action ≠ .endJoin j) :
    Since service early (actions.foldl (Services.step service) late) := by
  induction actions generalizing late with
  | nil => exact h
  | cons action actions ih =>
      exact ih (h.step hclash.1 (hjoin action List.mem_cons_self)) hclash.2
        fun other hmem => hjoin other (List.mem_cons_of_mem _ hmem)

theorem Reached.run {services : List S} {s : State C S J} (h : Reached services s)
    (actions : List (Action C J)) :
    Reached services (actions.foldl (Services.step service) s) := by
  induction actions generalizing s with
  | nil => exact h
  | cons action actions ih => exact ih (step_reached h action)

theorem inv_run {s : State C S J} (h : Inv service s) {actions : List (Action C J)}
    (hclash : Throughout (step service) (fun s action => ¬ Clash service s action) s actions) :
    Inv service (actions.foldl (step service) s) := by
  induction actions generalizing s with
  | nil => exact h
  | cons action actions ih => exact ih (h.step action hclash.1) hclash.2

theorem inWindow_of_passed {call : Call} (hpassed : Passed call) (hcall : call ≠ .accepted) :
    InWindow call := by
  rcases hpassed with hadmitted | hcreated | haccepted
  · exact .inl hadmitted
  · exact .inr hcreated
  · exact absurd haccepted hcall

variable (service) in
/-- The state that a run of the dispatcher leads to. -/
def after (actions : List (Action C J)) : State C S J :=
  actions.foldl (step service) State.initial

theorem after_append (actions more : List (Action C J)) :
    after service (actions ++ more) = more.foldl (step service) (after service actions) :=
  List.foldl_append ..

/-- The stop sets the flag in the state `s`, and takes the lock after the steps `between`. -/
theorem missed_from {s : State C S J} (hinv : Inv service s)
    {between rest : List (Action C J)}
    (hclash : Throughout (step service) (fun s action => ¬ Clash service s action) (beginStop s)
      (between ++ .lockStop :: rest))
    (hjoin : ∀ action ∈ between ++ rest, ∀ j, action ≠ .endJoin j)
    (hlock : CanLock (between.foldl (step service) (beginStop s))) {c : C} {last : State C S J}
    (hlast : last = (between ++ .lockStop :: rest).foldl (step service) (beginStop s))
    (hreleased : last.pending = none) (hused : (last.thread c).InUse)
    (hmissed : last.interrupted_ (service c) = false) :
    InWindow (s.call c) ∧ InWindow ((between.foldl (step service) (beginStop s)).call c) := by
  rw [throughout_append] at hclash
  obtain ⟨hbetween, -, hrest⟩ := hclash
  have hflag : Since service (beginStop s) (beginStop s) :=
    ⟨fun _ => Iff.rfl, fun _ => id, fun _ => id, fun _ => id, rfl, hinv⟩
  have hmid := hflag.run hbetween fun action hmem => hjoin action (List.mem_append_left _ hmem)
  rw [List.foldl_append, List.foldl_cons] at hlast
  generalize hatLock : between.foldl (step service) (beginStop s) = atLock at *
  have hlocked : Services.step service atLock .lockStop =
      { atLock with
        stopping_calls := atLock.stopping_calls - 1, pending := some atLock.services_ } :=
    if_pos hlock
  have hsince : Since service atLock last := by
    rw [hlast]
    have hstart : Since service atLock atLock :=
      ⟨fun _ => Iff.rfl, fun _ => id, fun _ => id, fun _ => id, hmid.stopping, hmid.inv⟩
    have hstep : Since service atLock (Services.step service atLock .lockStop) :=
      hstart.step id fun _ h => nomatch h
    exact hstep.run hrest fun action hmem => hjoin action (List.mem_append_right _ hmem)
  have hreached : Reached atLock.services_ last := by
    rw [hlast]
    refine Reached.run (fun x hx => .inr ?_) rest
    rw [hlocked]
    exact ⟨_, rfl, hx⟩
  have hpassed : Passed (last.call c) :=
    .inr ((hsince.inv.made c).mp fun hnone => by rw [hnone] at hused; exact hused)
  have hnotAccepted : atLock.call c ≠ .accepted := by
    intro hcall
    have hlisted := hmid.inv.kept c hcall (hsince.inUse hmid.inv hcall hused)
    rcases hreached _ hlisted with hdone | ⟨rest', hpending, -⟩
    · rw [hmissed] at hdone
      cases hdone
    · rw [hreleased] at hpending
      cases hpending
  have hpassedLock := (hsince.passed c).mp hpassed
  exact ⟨inWindow_of_passed ((hmid.passed c).mp hpassedLock)
      fun hcall => hnotAccepted (hmid.accepted c hcall),
    inWindow_of_passed hpassedLock hnotAccepted⟩

/-- When a stop has released the lock, a service that is in use and not interrupted belongs to a
call that had looked at the flag before the stop set it and that had not listed its service when
the stop took the lock. -/
theorem missed_in_window {before between rest : List (Action C J)}
    (hclash : Throughout (step service) (fun s action => ¬ Clash service s action) State.initial
      (before ++ .beginStop :: (between ++ .lockStop :: rest)))
    (hjoin : ∀ action ∈ between ++ rest, ∀ j, action ≠ .endJoin j)
    (hlock : CanLock (after service (before ++ .beginStop :: between))) {c : C}
    (hreleased :
      (after service (before ++ .beginStop :: (between ++ .lockStop :: rest))).pending = none)
    (hused :
      ((after service (before ++ .beginStop :: (between ++ .lockStop :: rest))).thread c).InUse)
    (hmissed : (after service
      (before ++ .beginStop :: (between ++ .lockStop :: rest))).interrupted_ (service c) = false) :
    InWindow ((after service before).call c) ∧
      InWindow ((after service (before ++ .beginStop :: between)).call c) := by
  rw [throughout_append] at hclash
  obtain ⟨hfirst, -, hrun⟩ := hclash
  have hinv : Inv service (after service before) := inv_run (inv_initial service) hfirst
  rw [after_append] at hlock hreleased hused hmissed ⊢
  exact missed_from hinv hrun hjoin hlock rfl hreleased hused hmissed

/-! ### The calls of `stop` -/

/-- A call that looks at the flag. -/
def earlyChecks : List (Services.Action Unit Unit) := [.checkRun (), .checkStopping ()]

/-- The thread is created and the service listed after the stop has released the lock. -/
def lateListing : List (Services.Action Unit Unit) :=
  [.interruptNext, .createThread (), .pushBack ()]

theorem late_listing_in_window :
    InWindow ((after (id : Unit → Unit) earlyChecks).call ()) ∧
      InWindow ((after (id : Unit → Unit) (earlyChecks ++ [.beginStop])).call ()) :=
  @missed_in_window Unit Unit Unit id _ _ _ earlyChecks [] lateListing
    (not_clash_throughout Function.injective_id ..) (by simp [lateListing])
    ⟨by decide, by decide⟩ () (by decide) (by decide) (by decide)

end Osquery.Dispatcher.Stopping
