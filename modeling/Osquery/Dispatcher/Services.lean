import Osquery.Foundation.Simulation

/-!
# The services of the dispatcher

The dispatcher runs every service on a thread of its own. The thread is created with a plain
pointer to the service before the service is listed, and it takes the service off the list when
it ends. A join takes the threads one after the other and clears the list when none is left.

## Implementation notes

A step is what a thread does without another one in between, and a step that has to wait leaves
the state as it was. A call of `addService` is identified by its thread. Whether a service has
ended on its own or because it was interrupted makes no difference here. While a stop holds the
lock, the services it has yet to interrupt are kept, and no step that needs the lock is taken.
-/

namespace Osquery.Dispatcher.Services

open Foundation.Simulation

variable {C S J : Type}

/-- How far a call of `addService` has come. -/
inductive Call
  | started
  /-- The service has not run. -/
  | unrun
  /-- The dispatcher is not stopping. -/
  | admitted
  /-- The thread is created. -/
  | created
  | accepted
  | refused
  deriving DecidableEq

/-- How far a thread has come with `InternalRunnable::run`. -/
inductive Thread
  | none
  | created
  | running
  | ended
  | removed
  deriving DecidableEq

/-- How far a call of `joinServices` has come. -/
inductive Join (C : Type)
  | idle
  | looping
  | joining (thread : C)
  | cleared
  deriving DecidableEq

structure State (C S J : Type) where
  services_ : List S
  service_threads_ : List C
  stopping_ : Bool
  run_ : S → Bool
  interrupted_ : S → Bool
  /-- How often `stop` was called for a service. -/
  stops : S → ℕ
  call : C → Call
  thread : C → Thread
  join : J → Join C
  /-- The calls of `stopServices` that have not yet locked the dispatcher. -/
  stopping_calls : ℕ
  /-- The services that the stop holding the lock has not come to. -/
  pending : Option (List S)

def State.initial : State C S J where
  services_ := []
  service_threads_ := []
  stopping_ := false
  run_ := fun _ => false
  interrupted_ := fun _ => false
  stops := fun _ => 0
  call := fun _ => .started
  thread := fun _ => .none
  join := fun _ => .idle
  stopping_calls := 0
  pending := none

inductive Action (C J : Type)
  | checkRun (c : C)
  | checkStopping (c : C)
  | createThread (c : C)
  | pushBack (c : C)
  | enter (c : C)
  | finish (c : C)
  | removeService (c : C)
  | beginJoin (j : J)
  | takeThread (j : J)
  | joined (j : J)
  | endJoin (j : J)
  | beginStop
  | lockStop
  | interruptNext

section Steps

variable [DecidableEq C] [DecidableEq S] [DecidableEq J] (service : C → S)

/-- `interrupt` on a service. -/
def interrupt (s : State C S J) (x : S) : State C S J :=
  if s.interrupted_ x then s
  else
    { s with
      interrupted_ := Function.update s.interrupted_ x true
      stops := Function.update s.stops x (s.stops x + 1) }

def checkRun (s : State C S J) (c : C) : State C S J :=
  if s.call c = .started then
    let next := if s.run_ (service c) then .refused else .unrun
    { s with call := Function.update s.call c next }
  else s

def checkStopping (s : State C S J) (c : C) : State C S J :=
  if s.call c = .unrun then
    let next := if s.stopping_ then .refused else .admitted
    { s with call := Function.update s.call c next }
  else s

def createThread (s : State C S J) (c : C) : State C S J :=
  if s.call c = .admitted then
    { s with
      call := Function.update s.call c .created
      thread := Function.update s.thread c .created }
  else s

def pushBack (s : State C S J) (c : C) : State C S J :=
  if s.call c = .created ∧ s.pending = none then
    { s with
      call := Function.update s.call c .accepted
      service_threads_ := s.service_threads_ ++ [c]
      services_ := s.services_ ++ [service c] }
  else s

def enter (s : State C S J) (c : C) : State C S J :=
  if s.thread c = .created then
    { s with
      run_ := Function.update s.run_ (service c) true
      thread := Function.update s.thread c .running }
  else s

def finish (s : State C S J) (c : C) : State C S J :=
  if s.thread c = .running then { s with thread := Function.update s.thread c .ended } else s

def removeService (s : State C S J) (c : C) : State C S J :=
  if s.thread c = .ended ∧ s.pending = none then
    { s with
      services_ := s.services_.filter fun target => target ≠ service c
      thread := Function.update s.thread c .removed }
  else s

def beginJoin (s : State C S J) (j : J) : State C S J :=
  if s.join j = .idle then { s with join := Function.update s.join j .looping } else s

/-- The locked part of a round of the join. -/
def takeThread (s : State C S J) (j : J) : State C S J :=
  if s.join j = .looping ∧ s.pending = none then
    match s.service_threads_.getLast? with
    | some c =>
        { s with
          service_threads_ := s.service_threads_.dropLast
          join := Function.update s.join j (.joining c) }
    | none => { s with services_ := [], join := Function.update s.join j .cleared }
  else s

def joined (s : State C S J) (j : J) : State C S J :=
  match s.join j with
  | .joining c =>
      if s.thread c = .removed then { s with join := Function.update s.join j .looping } else s
  | _ => s

def endJoin (s : State C S J) (j : J) : State C S J :=
  if s.join j = .cleared then
    { s with stopping_ := false, join := Function.update s.join j .idle }
  else s

def beginStop (s : State C S J) : State C S J :=
  { s with stopping_ := true, stopping_calls := s.stopping_calls + 1 }

def lockStop (s : State C S J) : State C S J :=
  if 0 < s.stopping_calls ∧ s.pending = none then
    { s with stopping_calls := s.stopping_calls - 1, pending := some s.services_ }
  else s

/-- The next service is interrupted as soon as it has run; after the last one the lock is
released. -/
def interruptNext (s : State C S J) : State C S J :=
  match s.pending with
  | none => s
  | some [] => { s with pending := none }
  | some (x :: rest) => if s.run_ x then { interrupt s x with pending := some rest } else s

def step (s : State C S J) : Action C J → State C S J
  | .checkRun c => checkRun service s c
  | .checkStopping c => checkStopping s c
  | .createThread c => createThread s c
  | .pushBack c => pushBack service s c
  | .enter c => enter service s c
  | .finish c => finish s c
  | .removeService c => removeService service s c
  | .beginJoin j => beginJoin s j
  | .takeThread j => takeThread s j
  | .joined j => joined s j
  | .endJoin j => endJoin s j
  | .beginStop => beginStop s
  | .lockStop => lockStop s
  | .interruptNext => interruptNext s

end Steps

/-! ### Threads and the services they use -/

/-- The thread still uses the service it was created with. -/
def Thread.InUse : Thread → Prop
  | .created | .running | .ended => True
  | .none | .removed => False

instance (thread : Thread) : Decidable thread.InUse := by
  cases thread <;> unfold Thread.InUse <;> infer_instance

/-- The call has created its thread. -/
def Call.Made (call : Call) : Prop := call = .created ∨ call = .accepted

section Ownership

variable (service : C → S)

/-- The dispatcher or the call that adds it holds the service of a thread. -/
def Held (s : State C S J) (c : C) : Prop := service c ∈ s.services_ ∨ s.call c = .created

/-- No service is gone while a thread uses it. -/
def Owned (s : State C S J) : Prop := ∀ c, (s.thread c).InUse → Held service s c

/-- The step is that of a join that clears the list while another join waits for a thread, or
that of a thread which takes a service off the list that another thread uses. -/
def Clash (s : State C S J) : Action C J → Prop
  | .takeThread j => s.join j = .looping ∧ s.pending = none ∧ s.service_threads_ = [] ∧
      ∃ j' c, s.join j' = .joining c ∧ (s.thread c).InUse
  | .removeService c => s.thread c = .ended ∧ s.pending = none ∧
      ∃ c', c' ≠ c ∧ service c' = service c ∧ s.call c' = .accepted ∧ (s.thread c').InUse
  | _ => False

/-- What the lists, the calls, the threads and the joins have to do with each other. -/
structure Tracked (services : List S) (threads : List C) (call : C → Call) (thread : C → Thread)
    (join : J → Join C) : Prop where
  made : ∀ c, thread c ≠ .none ↔ (call c).Made
  kept : ∀ c, call c = .accepted → (thread c).InUse → service c ∈ services
  awaited : ∀ c, call c = .accepted → (thread c).InUse → c ∈ threads ∨ ∃ j, join j = .joining c
  listed : ∀ c ∈ threads, call c = .accepted
  joining : ∀ j c, join j = .joining c → call c = .accepted

def Inv (s : State C S J) : Prop :=
  Tracked service s.services_ s.service_threads_ s.call s.thread s.join

theorem inv_initial : Inv service (State.initial : State C S J) :=
  ⟨fun _ => ⟨fun h => absurd rfl h, nofun⟩, nofun, nofun, nofun, nofun⟩

variable {service}

theorem Inv.owned {s : State C S J} (h : Inv service s) : Owned service s := by
  intro c hused
  have hmade : (s.call c).Made := (h.made c).mp fun hnone => by rw [hnone] at hused; exact hused
  rcases hmade with hcreated | haccepted
  · exact .inr hcreated
  · exact .inl (h.kept c haccepted hused)

variable {services : List S} {threads : List C} {call : C → Call} {thread : C → Thread}
  {join : J → Join C}

/-- Threads and joins change, and every thread in use is still awaited. -/
theorem Tracked.update_join (h : Tracked service services threads call thread join)
    {threads' : List C} {join' : J → Join C} (hthreads : ∀ c ∈ threads', c ∈ threads)
    (hjoin : ∀ j c, join' j = .joining c → call c = .accepted)
    (hawaited : ∀ c, (thread c).InUse → (c ∈ threads ∨ ∃ j, join j = .joining c) →
      c ∈ threads' ∨ ∃ j, join' j = .joining c) :
    Tracked service services threads' call thread join' :=
  ⟨h.made, h.kept, fun c hcall hused => hawaited c hused (h.awaited c hcall hused),
    fun c hmem => h.listed c (hthreads c hmem), hjoin⟩

section Joins

variable [DecidableEq J]

theorem Tracked.takeThread (h : Tracked service services threads call thread join) {j : J}
    (hloop : join j = .looping) {c : C} (hlast : threads.getLast? = some c) :
    Tracked service services threads.dropLast call thread
      (Function.update join j (.joining c)) := by
  have hsplit : threads = threads.dropLast ++ [c] :=
    (List.dropLast_append_getLast? c (by rw [hlast]; rfl)).symm
  refine h.update_join (fun c' hmem => List.dropLast_subset _ hmem) (fun j' c' hjoin => ?_)
    fun c' hused hold => ?_
  · by_cases hj : j' = j
    · subst hj
      rw [Function.update_self, Join.joining.injEq] at hjoin
      exact h.listed c' (hsplit ▸ List.mem_append_right _ (List.mem_singleton.mpr hjoin.symm))
    · rw [Function.update_of_ne hj] at hjoin
      exact h.joining j' c' hjoin
  · rcases hold with hmem | ⟨j', hjoin⟩
    · rw [hsplit, List.mem_append, List.mem_singleton] at hmem
      refine hmem.imp_right fun heq => ⟨j, ?_⟩
      rw [Function.update_self, heq]
    · refine .inr ⟨j', ?_⟩
      have hne : j' ≠ j := by
        rintro rfl
        rw [hloop] at hjoin
        cases hjoin
      rwa [Function.update_of_ne hne]

/-- A join that waits for no thread in use goes on without waiting for one. -/
theorem Tracked.continue_join (h : Tracked service services threads call thread join) {j : J}
    (hbefore : ∀ c, join j = .joining c → ¬ (thread c).InUse) {next : Join C}
    (hnext : ∀ c, next ≠ .joining c) :
    Tracked service services threads call thread (Function.update join j next) := by
  refine h.update_join (fun c hmem => hmem) (fun j' c hjoin => ?_) fun c hused hold => ?_
  · by_cases hj : j' = j
    · subst hj
      rw [Function.update_self] at hjoin
      exact absurd hjoin (hnext c)
    · rw [Function.update_of_ne hj] at hjoin
      exact h.joining j' c hjoin
  · refine hold.imp_right fun ⟨j', hjoin⟩ => ⟨j', ?_⟩
    have hne : j' ≠ j := by
      rintro rfl
      exact hbefore c hjoin hused
    rwa [Function.update_of_ne hne]

end Joins

section Calls

variable [DecidableEq C]

/-- A call that has not created a thread goes on without creating one. -/
theorem Tracked.update_call (h : Tracked service services threads call thread join) {c : C}
    (hbefore : ¬ (call c).Made) {next : Call} (hnext : ¬ next.Made) :
    Tracked service services threads (Function.update call c next) thread join := by
  have hforward : ∀ c', call c' = .accepted → Function.update call c next c' = .accepted := by
    intro c' haccepted
    have hne : c' ≠ c := fun heq => hbefore (heq ▸ .inr haccepted)
    rwa [Function.update_of_ne hne]
  have hback : ∀ c', Function.update call c next c' = .accepted → call c' = .accepted := by
    intro c' haccepted
    by_cases hc : c' = c
    · subst hc
      rw [Function.update_self] at haccepted
      exact absurd (.inr haccepted) hnext
    · rwa [Function.update_of_ne hc] at haccepted
  refine ⟨fun c' => (h.made c').trans ?_, fun c' hcall => h.kept c' (hback c' hcall),
    fun c' hcall => h.awaited c' (hback c' hcall),
    fun c' hmem => hforward c' (h.listed c' hmem),
    fun j c' hjoin => hforward c' (h.joining j c' hjoin)⟩
  by_cases hc : c' = c
  · rw [hc, Function.update_self]
    exact iff_of_false hbefore hnext
  · rw [Function.update_of_ne hc]

theorem Tracked.createThread (h : Tracked service services threads call thread join) {c : C}
    (hcall : call c = .admitted) :
    Tracked service services threads (Function.update call c .created)
      (Function.update thread c .created) join := by
  have hne : ∀ c', call c' = .accepted → c' ≠ c := by
    rintro c' haccepted rfl
    rw [hcall] at haccepted
    cases haccepted
  have hback : ∀ c', Function.update call c .created c' = .accepted →
      call c' = .accepted ∧ Function.update thread c .created c' = thread c' := by
    intro c' haccepted
    by_cases hc : c' = c
    · subst hc
      rw [Function.update_self] at haccepted
      cases haccepted
    · rw [Function.update_of_ne hc] at haccepted ⊢
      exact ⟨haccepted, rfl⟩
  refine ⟨fun c' => ?_, fun c' hcall hused => ?_, fun c' hcall hused => ?_,
    fun c' hmem => ?_, fun j c' hjoin => ?_⟩
  · by_cases hc : c' = c
    · rw [hc, Function.update_self, Function.update_self]
      exact iff_of_true nofun (.inl rfl)
    · rw [Function.update_of_ne hc, Function.update_of_ne hc]
      exact h.made c'
  · obtain ⟨haccepted, hthread⟩ := hback c' hcall
    exact h.kept c' haccepted (hthread ▸ hused)
  · obtain ⟨haccepted, hthread⟩ := hback c' hcall
    exact h.awaited c' haccepted (hthread ▸ hused)
  · rw [Function.update_of_ne (hne c' (h.listed c' hmem))]
    exact h.listed c' hmem
  · rw [Function.update_of_ne (hne c' (h.joining j c' hjoin))]
    exact h.joining j c' hjoin

theorem Tracked.pushBack (h : Tracked service services threads call thread join) {c : C}
    (hcall : call c = .created) :
    Tracked service (services ++ [service c]) (threads ++ [c]) (Function.update call c .accepted)
      thread join := by
  have haccept : ∀ c', c' = c ∨ call c' = .accepted →
      Function.update call c .accepted c' = .accepted := by
    rintro c' hcall
    by_cases hc : c' = c
    · rw [hc, Function.update_self]
    · rw [Function.update_of_ne hc]
      exact hcall.resolve_left hc
  refine ⟨fun c' => (h.made c').trans ?_, fun c' hcall hused => ?_,
    fun c' hcall hused => ?_, fun c' hmem => ?_,
    fun j c' hjoin => haccept c' (.inr (h.joining j c' hjoin))⟩
  · by_cases hc : c' = c
    · rw [hc, Function.update_self, hcall]
      exact iff_of_true (.inl rfl) (.inr rfl)
    · rw [Function.update_of_ne hc]
  · by_cases hc : c' = c
    · exact List.mem_append_right _ (List.mem_singleton.mpr (hc ▸ rfl))
    · rw [Function.update_of_ne hc] at hcall
      exact List.mem_append_left _ (h.kept c' hcall hused)
  · by_cases hc : c' = c
    · exact .inl (List.mem_append_right _ (List.mem_singleton.mpr hc))
    · rw [Function.update_of_ne hc] at hcall
      exact (h.awaited c' hcall hused).imp_left (List.mem_append_left _)
  · rcases List.mem_append.mp hmem with hold | hnew
    · exact haccept c' (.inr (h.listed c' hold))
    · exact haccept c' (.inl (List.mem_singleton.mp hnew))

/-- A thread that uses its service goes on, and the others find theirs on the list. -/
theorem Tracked.update_thread (h : Tracked service services threads call thread join) {c : C}
    (hbefore : (thread c).InUse) {next : Thread} (hnext : next ≠ .none) {services' : List S}
    (hkept : ∀ c', call c' = .accepted → (Function.update thread c next c').InUse →
      service c' ∈ services') :
    Tracked service services' threads call (Function.update thread c next) join := by
  have hback : ∀ c', (Function.update thread c next c').InUse → (thread c').InUse := by
    intro c' hused
    by_cases hc : c' = c
    · exact hc ▸ hbefore
    · rwa [Function.update_of_ne hc] at hused
  refine ⟨fun c' => Iff.trans ?_ (h.made c'), hkept,
    fun c' hcall hused => h.awaited c' hcall (hback c' hused), h.listed, h.joining⟩
  by_cases hc : c' = c
  · rw [hc, Function.update_self]
    exact iff_of_true hnext fun hnone => by rw [hnone] at hbefore; exact hbefore
  · rw [Function.update_of_ne hc]

/-- A thread that goes on uses the same service. -/
theorem Tracked.continue_thread (h : Tracked service services threads call thread join) {c : C}
    (hbefore : (thread c).InUse) {next : Thread} (hnext : next ≠ .none) :
    Tracked service services threads call (Function.update thread c next) join := by
  refine h.update_thread hbefore hnext fun c' hcall hused => h.kept c' hcall ?_
  by_cases hc : c' = c
  · exact hc ▸ hbefore
  · rwa [Function.update_of_ne hc] at hused

end Calls

variable {s : State C S J}

theorem Inv.takeThread [DecidableEq C] [DecidableEq J] (h : Inv service s) {j : J}
    (hclash : ¬ Clash service s (.takeThread j)) : Inv service (takeThread s j) := by
  unfold Services.takeThread
  split
  · rename_i hloop
    split
    · rename_i c hlast
      exact Tracked.takeThread h hloop.1 hlast
    · rename_i hempty
      rw [List.getLast?_eq_none_iff] at hempty
      refine Tracked.continue_join ?_ (fun c hjoin => by rw [hloop.1] at hjoin; cases hjoin) nofun
      refine ⟨h.made, fun c hcall hused => ?_, h.awaited, h.listed, h.joining⟩
      rcases h.awaited c hcall hused with hmem | ⟨j', hjoin⟩
      · rw [hempty] at hmem
        cases hmem
      · exact absurd ⟨hloop.1, hloop.2, hempty, j', c, hjoin, hused⟩ hclash
  · exact h

theorem Inv.removeService [DecidableEq C] [DecidableEq S] (h : Inv service s) {c : C}
    (hclash : ¬ Clash service s (.removeService c)) : Inv service (removeService service s c) := by
  unfold Services.removeService
  split
  · rename_i hended
    refine Tracked.update_thread h (by rw [hended.1]; trivial)
      (show Thread.removed ≠ .none from nofun) fun c' hcall hused => ?_
    have hne : c' ≠ c := by
      rintro rfl
      rw [Function.update_self] at hused
      exact hused
    rw [Function.update_of_ne hne] at hused
    refine List.mem_filter.mpr ⟨h.kept c' hcall hused, decide_eq_true fun heq => ?_⟩
    exact hclash ⟨hended.1, hended.2, c', hne, heq, hcall, hused⟩
  · exact h

theorem Inv.joined [DecidableEq J] (h : Inv service s) (j : J) : Inv service (joined s j) := by
  unfold Services.joined
  split
  · rename_i c hjoin
    split
    · rename_i hremoved
      refine Tracked.continue_join h (fun c' hjoin' => ?_) nofun
      rw [hjoin, Join.joining.injEq] at hjoin'
      rw [← hjoin', hremoved]
      exact id
    · exact h
  · exact h

theorem inv_interrupt [DecidableEq S] (h : Inv service s) (x : S) :
    Inv service (interrupt s x) := by
  unfold interrupt
  split <;> exact h

/-- Nothing clashes when every service is added by one call and there is one join at a time. -/
theorem not_clash_of_single [Subsingleton J] (hservice : Function.Injective service)
    (s : State C S J) (action : Action C J) : ¬ Clash service s action := by
  intro hclash
  cases action with
  | takeThread j =>
      obtain ⟨hloop, -, -, j', c, hjoin, -⟩ := hclash
      rw [Subsingleton.elim j' j, hloop] at hjoin
      cases hjoin
  | removeService c =>
      obtain ⟨-, -, c', hne, heq, -⟩ := hclash
      exact hne (hservice heq)
  | _ => exact hclash

variable [DecidableEq C] [DecidableEq S] [DecidableEq J]

/-- What the lists have to do with the threads is kept by every step that is no clash. -/
theorem Inv.step (h : Inv service s) (action : Action C J) (hclash : ¬ Clash service s action) :
    Inv service (step service s action) := by
  cases action with
  | checkRun c =>
      change Inv service (checkRun service s c)
      unfold checkRun
      split
      · rename_i hcall
        exact Tracked.update_call h (by rw [hcall]; unfold Call.Made; decide)
          (by unfold Call.Made; split <;> decide)
      · exact h
  | checkStopping c =>
      change Inv service (checkStopping s c)
      unfold checkStopping
      split
      · rename_i hcall
        exact Tracked.update_call h (by rw [hcall]; unfold Call.Made; decide)
          (by unfold Call.Made; split <;> decide)
      · exact h
  | createThread c =>
      change Inv service (createThread s c)
      unfold createThread
      split
      · rename_i hcall
        exact Tracked.createThread h hcall
      · exact h
  | pushBack c =>
      change Inv service (pushBack service s c)
      unfold pushBack
      split
      · rename_i hcall
        exact Tracked.pushBack h hcall.1
      · exact h
  | enter c =>
      change Inv service (enter service s c)
      unfold enter
      split
      · rename_i hthread
        exact Tracked.continue_thread h (by rw [hthread]; trivial) nofun
      · exact h
  | finish c =>
      change Inv service (finish s c)
      unfold finish
      split
      · rename_i hthread
        exact Tracked.continue_thread h (by rw [hthread]; trivial) nofun
      · exact h
  | removeService c => exact h.removeService hclash
  | beginJoin j =>
      change Inv service (beginJoin s j)
      unfold beginJoin
      split
      · rename_i hidle
        exact Tracked.continue_join h (fun c hjoin => by rw [hidle] at hjoin; cases hjoin) nofun
      · exact h
  | takeThread j => exact h.takeThread hclash
  | joined j => exact h.joined j
  | endJoin j =>
      change Inv service (endJoin s j)
      unfold endJoin
      split
      · rename_i hcleared
        exact Tracked.continue_join h (fun c hjoin => by rw [hcleared] at hjoin; cases hjoin) nofun
      · exact h
  | beginStop => exact h
  | lockStop =>
      change Inv service (lockStop s)
      unfold lockStop
      split <;> exact h
  | interruptNext =>
      change Inv service (interruptNext s)
      unfold interruptNext
      split
      · exact h
      · exact h
      · split
        · exact inv_interrupt h _
        · exact h

/-- After a clash a thread uses a service that nothing holds. -/
theorem not_owned_of_clash (h : Inv service s) {action : Action C J}
    (hclash : Clash service s action) : ¬ Owned service (step service s action) := by
  intro howned
  cases action with
  | takeThread j =>
      obtain ⟨hloop, hpending, hempty, j', c, hjoin, hused⟩ := hclash
      have hstep : takeThread s j =
          { s with services_ := [], join := Function.update s.join j .cleared } := by
        unfold takeThread
        rw [if_pos ⟨hloop, hpending⟩, hempty]
        rfl
      have hheld := howned c (by change ((takeThread s j).thread c).InUse; rwa [hstep])
      change Held service (takeThread s j) c at hheld
      rw [hstep] at hheld
      rcases hheld with hmem | hcall
      · cases hmem
      · rw [h.joining j' c hjoin] at hcall
        cases hcall
  | removeService c =>
      obtain ⟨hended, hpending, c', hne, heq, hcall, hused⟩ := hclash
      have hstep : removeService service s c =
          { s with
            services_ := s.services_.filter fun target => target ≠ service c
            thread := Function.update s.thread c .removed } := if_pos ⟨hended, hpending⟩
      have hheld := howned c' (by
        change ((removeService service s c).thread c').InUse
        rw [hstep]
        change (Function.update s.thread c .removed c').InUse
        rwa [Function.update_of_ne hne])
      change Held service (removeService service s c) c' at hheld
      rw [hstep] at hheld
      rcases hheld with hmem | hcreated
      · rw [heq, List.mem_filter] at hmem
        exact absurd rfl (of_decide_eq_true hmem.2)
      · rw [hcall] at hcreated
        cases hcreated
  | _ => exact hclash

/-- In every run, no service is gone while a thread uses it exactly as long as no join clears the
list while another one waits and no two threads run one service. -/
theorem owned_throughout_iff (service : C → S) (actions : List (Action C J)) :
    Throughout (step service) (fun s action => Owned service (step service s action))
        State.initial actions ↔
      Throughout (step service) (fun s action => ¬ Clash service s action)
        State.initial actions := by
  refine throughout_iff_of_invariant (I := Inv service) ?_ ?_ (inv_initial service)
    throughout_true
  · intro s action hinv _
    exact ⟨fun howned hclash => not_owned_of_clash hinv hclash howned,
      fun hclash => (hinv.step action hclash).owned⟩
  · exact fun s action hinv _ hclash => hinv.step action hclash

theorem not_clash_throughout [Subsingleton J] (hservice : Function.Injective service)
    (s : State C S J) (actions : List (Action C J)) :
    Throughout (step service) (fun s action => ¬ Clash service s action) s actions := by
  have hnone : ∀ (s : State C S J) (action : Action C J), ¬ Clash service s action ↔ True :=
    fun s action => iff_true_intro (not_clash_of_single hservice s action)
  exact (throughout_congr hnone _ _).mpr throughout_true

end Ownership

end Osquery.Dispatcher.Services
