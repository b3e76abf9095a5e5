import Osquery.Foundation.Simulation
import Osquery.Remote.Retries

/-!
# The node key

A node enrolls when it has no key stored, stores the key it gets and sends it with every request
until the server says that the key is invalid. Several threads do so at the same time, and
nothing keeps one of them from writing over what another has stored since it looked.

## Implementation notes

A step is one access to the store, one call of the enroll plugin or one request. The answers of
the server are inputs, and what it has issued and still accepts is kept beside the state of the
node; revoking a key is a step. A key that is deleted reads as the empty text. The clear that
`enroll_always` asks for at the start is left out.
-/

namespace Osquery.Remote.Enrollment

open Foundation.Simulation Retries

/-- How far a thread has come with a request. -/
inductive Stage
  | idle
  /-- There was no key in the store at the time of the request. -/
  | unenrolled (request_time : String)
  /-- The key in the response of the enroll plugin, if there was one. -/
  | answered (request_time : String) (node_key : Option String)
  /-- The key is stored, the time is not. -/
  | stored (request_time node_key : String)
  | keyed (node_key : String)
  /-- The answer to the request was that the key is invalid, and the key is to be cleared. -/
  | rejected (node_key : String)
  deriving DecidableEq

/-- The store of the node, its threads and what the server knows. -/
structure State (T : Type) where
  nodeKey : String
  nodeKeyTime : String
  stage : T → Stage
  /-- The keys that the server has issued. -/
  issued : List String
  /-- The keys that the server accepts. -/
  accepted : List String
  /-- The keys that were stored. -/
  kept : List String

def State.initial {T : Type} : State T := ⟨"", "", fun _ => .idle, [], [], []⟩

inductive Action (T : Type)
  /-- `getNodeKey` looks into the store. -/
  | look (t : T) (request_time : String)
  /-- The enroll plugin is called. -/
  | enroll (t : T) (response : Option String)
  /-- The key of the response is stored. -/
  | store (t : T)
  | storeTime (t : T)
  /-- A request with the key, and the answer to it. -/
  | send (t : T) (answer : Answer)
  | clearNodeKey (t : T)
  | revoke (node_key : String)

section Steps

variable {T : Type} [DecidableEq T]

def State.setStage (s : State T) (t : T) (stage : Stage) : State T :=
  { s with stage := Function.update s.stage t stage }

/-- The key is used if there is one, else the plugin is to be called. -/
def look (s : State T) (t : T) (request_time : String) : State T :=
  match s.stage t with
  | .idle =>
      s.setStage t (if s.nodeKey ≠ "" then .keyed s.nodeKey else .unenrolled request_time)
  | _ => s

/-- A plugin that gets no key answers with the empty one, and with nothing if it is disabled. -/
def enroll (s : State T) (t : T) (response : Option String) : State T :=
  match s.stage t with
  | .unenrolled request_time =>
      let fresh := response.toList.filter (· ≠ "")
      { s.setStage t (.answered request_time response) with
        issued := s.issued ++ fresh, accepted := s.accepted ++ fresh }
  | _ => s

/-- The key is stored even if it is empty. -/
def store (s : State T) (t : T) : State T :=
  match s.stage t with
  | .answered request_time (some node_key) =>
      { s.setStage t (.stored request_time node_key) with
        nodeKey := node_key
        kept := s.kept ++ [node_key].filter (· ≠ "") }
  | .answered _ none => s.setStage t (.keyed "")
  | _ => s

def storeTime (s : State T) (t : T) : State T :=
  match s.stage t with
  | .stored request_time node_key =>
      { s.setStage t (.keyed node_key) with nodeKeyTime := request_time }
  | _ => s

/-- `go` up to the clear. -/
def send (flags : Flags) (s : State T) (t : T) (answer : Answer) : State T :=
  match s.stage t with
  | .keyed node_key =>
      match checkAnswer flags answer with
      | some (_, true) => s.setStage t (.rejected node_key)
      | _ => s.setStage t .idle
  | _ => s

def clearNodeKey (s : State T) (t : T) : State T :=
  match s.stage t with
  | .rejected _ => { s.setStage t .idle with nodeKey := "" }
  | _ => s

def revoke (s : State T) (node_key : String) : State T :=
  { s with accepted := s.accepted.filter (· ≠ node_key) }

def step (flags : Flags) (s : State T) : Action T → State T
  | .look t request_time => look s t request_time
  | .enroll t response => enroll s t response
  | .store t => store s t
  | .storeTime t => storeTime s t
  | .send t answer => send flags s t answer
  | .clearNodeKey t => clearNodeKey s t
  | .revoke node_key => revoke s node_key

end Steps

variable {T : Type}

/-! ### What the server does and what is lost -/

/-- The server issues a key once, and says of no key that it accepts that it is invalid. -/
def Honest (flags : Flags) (s : State T) : Action T → Prop
  | .enroll t (some node_key) =>
      (∃ request_time, s.stage t = .unenrolled request_time) → node_key ∉ s.issued
  | .send t answer => ∀ node_key status, s.stage t = .keyed node_key →
      checkAnswer flags answer = some (status, true) → node_key ∉ s.accepted
  | _ => True

/-- Of the keys that were stored, the server accepts at most the one in the store. -/
def NoneOrphaned (s : State T) : Prop := ∀ node_key ∈ s.kept, node_key ∈ s.accepted →
  s.nodeKey = node_key

/-- A thread writes over a key that the server accepts: it has enrolled because there was no key,
or clears the store because of another key. -/
def WritesOver (s : State T) : Action T → Prop
  | .store t => s.nodeKey ∈ s.accepted ∧
      ∃ request_time node_key, s.stage t = .answered request_time (some node_key)
  | .clearNodeKey t => s.nodeKey ∈ s.accepted ∧
      ∃ node_key, s.stage t = .rejected node_key ∧ node_key ≠ s.nodeKey
  | _ => False

/-! ### What the threads know -/

/-- What a stage says about the keys that were issued, are accepted and were stored. -/
def Stage.Sound (issued accepted kept : List String) : Stage → Prop
  | .answered _ (some node_key) => node_key = "" ∨ node_key ∈ issued ∧ node_key ∉ kept
  | .stored _ node_key | .keyed node_key => node_key = "" ∨ node_key ∈ issued
  | .rejected node_key => (node_key = "" ∨ node_key ∈ issued) ∧ node_key ∉ accepted
  | _ => True

/-- The key that a thread is going to store. -/
def Stage.carried : Stage → Option String
  | .answered _ (some node_key) => some node_key
  | _ => none

/-- No two threads are going to store one key. -/
def Distinct (stage : T → Stage) : Prop := ∀ t t' node_key, (stage t).carried = some node_key →
  (stage t').carried = some node_key → node_key = "" ∨ t = t'

structure Inv (s : State T) : Prop where
  accepted_issued : ∀ node_key ∈ s.accepted, node_key ∈ s.issued
  issued_ne : "" ∉ s.issued
  kept_issued : ∀ node_key ∈ s.kept, node_key ∈ s.issued
  nodeKey_kept : s.nodeKey = "" ∨ s.nodeKey ∈ s.kept
  sound : ∀ t, (s.stage t).Sound s.issued s.accepted s.kept
  distinct : Distinct s.stage

theorem inv_initial : Inv (State.initial : State T) where
  accepted_issued _ h := nomatch h
  issued_ne h := nomatch h
  kept_issued _ h := nomatch h
  nodeKey_kept := .inl rfl
  sound _ := trivial
  distinct _ _ _ h := nomatch h

variable {s : State T}

theorem sound_of_revoke {issued accepted kept : List String} {stage : Stage}
    (h : stage.Sound issued accepted kept) {fewer : List String}
    (hfewer : ∀ node_key ∈ fewer, node_key ∈ accepted) : stage.Sound issued fewer kept := by
  cases stage with
  | answered request_time response => cases response <;> exact h
  | rejected node_key => exact ⟨h.1, fun hmem => h.2 (hfewer node_key hmem)⟩
  | _ => exact h

theorem inv_revoke (h : Inv s) (node_key : String) : Inv (revoke s node_key) where
  accepted_issued k hmem := h.accepted_issued k (List.mem_of_mem_filter hmem)
  issued_ne := h.issued_ne
  kept_issued := h.kept_issued
  nodeKey_kept := h.nodeKey_kept
  sound t := sound_of_revoke (h.sound t) fun _ => List.mem_of_mem_filter
  distinct := h.distinct

/-- Whatever leaves the store and what was stored alone orphans no key, if no key is accepted
that was stored. -/
theorem NoneOrphaned.of_same (h : NoneOrphaned s) {s' : State T} (hkey : s'.nodeKey = s.nodeKey)
    (hkept : s'.kept = s.kept)
    (haccepted : ∀ node_key ∈ s.kept, node_key ∈ s'.accepted → node_key ∈ s.accepted) :
    NoneOrphaned s' := by
  intro node_key hmem hacc
  rw [hkept] at hmem
  rw [hkey]
  exact h node_key hmem (haccepted node_key hmem hacc)

theorem nodeKey_of_accepted (h : Inv s) (hacc : s.nodeKey ∈ s.accepted) : s.nodeKey ∈ s.kept := by
  refine h.nodeKey_kept.resolve_left fun hempty => ?_
  rw [hempty] at hacc
  exact h.issued_ne (h.accepted_issued _ hacc)

/-- A key that a thread is going to store was issued and not stored. -/
theorem Inv.carried (h : Inv s) {t : T} {node_key : String}
    (hcarried : (s.stage t).carried = some node_key) (hne : node_key ≠ "") :
    node_key ∈ s.issued ∧ node_key ∉ s.kept := by
  have hsound := h.sound t
  cases hstage : s.stage t with
  | answered request_time response =>
      rw [hstage] at hcarried hsound
      cases response with
      | none => cases hcarried
      | some k =>
          obtain rfl := Option.some.inj hcarried
          exact hsound.resolve_left hne
  | _ =>
      rw [hstage] at hcarried
      cases hcarried

variable [DecidableEq T]

theorem forall_stage {P : Stage → Prop} {stage : T → Stage} {t : T} {next : Stage}
    (hnext : P next) (h : ∀ t', t' ≠ t → P (stage t')) (t' : T) :
    P (Function.update stage t next t') := by
  by_cases ht : t' = t
  · rw [ht, Function.update_self]
    exact hnext
  · rw [Function.update_of_ne ht]
    exact h t' ht

theorem Distinct.update {stage : T → Stage} (h : Distinct stage) {t : T} {next : Stage}
    (hnext : ∀ node_key, next.carried = some node_key → node_key ≠ "" →
      ∀ t', (stage t').carried ≠ some node_key) : Distinct (Function.update stage t next) := by
  intro t₁ t₂ node_key h₁ h₂
  by_cases hne : node_key = ""
  · exact .inl hne
  by_cases ht₁ : t₁ = t <;> by_cases ht₂ : t₂ = t
  · exact .inr (ht₁.trans ht₂.symm)
  · rw [ht₁, Function.update_self] at h₁
    rw [Function.update_of_ne ht₂] at h₂
    exact absurd h₂ (hnext node_key h₁ hne t₂)
  · rw [ht₂, Function.update_self] at h₂
    rw [Function.update_of_ne ht₁] at h₁
    exact absurd h₁ (hnext node_key h₂ hne t₁)
  · rw [Function.update_of_ne ht₁] at h₁
    rw [Function.update_of_ne ht₂] at h₂
    exact h t₁ t₂ node_key h₁ h₂

theorem Distinct.update_none {stage : T → Stage} (h : Distinct stage) (t : T) {next : Stage}
    (hnext : next.carried = none) : Distinct (Function.update stage t next) :=
  h.update fun node_key hsome => by rw [hnext] at hsome; cases hsome

/-- A thread goes on with a stage that is sound, without a key to store. -/
theorem Inv.setStage (h : Inv s) (t : T) {next : Stage}
    (hnext : next.Sound s.issued s.accepted s.kept) (hcarried : next.carried = none) :
    Inv (s.setStage t next) where
  accepted_issued := h.accepted_issued
  issued_ne := h.issued_ne
  kept_issued := h.kept_issued
  nodeKey_kept := h.nodeKey_kept
  sound := forall_stage hnext fun t' _ => h.sound t'
  distinct := h.distinct.update_none t hcarried

theorem sound_of_issue {issued accepted kept : List String} {stage : Stage}
    (h : stage.Sound issued accepted kept) {fresh : List String}
    (hfresh : ∀ node_key ∈ fresh, node_key ≠ "" ∧ node_key ∉ issued) :
    stage.Sound (issued ++ fresh) (accepted ++ fresh) kept := by
  have hgrow : ∀ node_key : String, node_key = "" ∨ node_key ∈ issued →
      node_key = "" ∨ node_key ∈ issued ++ fresh :=
    fun _ hor => hor.imp_right (List.mem_append_left _)
  cases stage with
  | answered request_time response =>
      cases response with
      | none => trivial
      | some node_key => exact h.imp_right fun hand => ⟨List.mem_append_left _ hand.1, hand.2⟩
  | stored request_time node_key => exact hgrow node_key h
  | keyed node_key => exact hgrow node_key h
  | rejected node_key =>
      refine ⟨hgrow node_key h.1, fun hmem => ?_⟩
      rcases List.mem_append.mp hmem with hold | hnew
      · exact h.2 hold
      · obtain ⟨hne, hnot⟩ := hfresh node_key hnew
        exact h.1.elim hne hnot
  | _ => trivial

theorem inv_enroll (h : Inv s) {t : T} {response : Option String}
    (hfresh : ∀ node_key, response = some node_key → (∃ request_time,
      s.stage t = .unenrolled request_time) → node_key ∉ s.issued) :
    Inv (enroll s t response) := by
  unfold enroll
  split
  · rename_i request_time hstage
    have hnot : ∀ node_key, response = some node_key → node_key ∉ s.issued :=
      fun node_key hresponse => hfresh node_key hresponse ⟨_, hstage⟩
    have hnew : ∀ node_key, node_key ∈ response.toList.filter (· ≠ "") ↔
        response = some node_key ∧ node_key ≠ "" := by
      intro node_key
      rw [List.mem_filter, Option.mem_toList, decide_eq_true_eq]
    refine ⟨fun node_key hmem => ?_, fun hmem => ?_,
      fun node_key hmem => List.mem_append_left _ (h.kept_issued node_key hmem), h.nodeKey_kept,
      forall_stage ?_ fun t' _ => sound_of_issue (h.sound t') fun node_key hmem => ?_,
      h.distinct.update fun node_key hcarried hne t' hother => ?_⟩
    · exact (List.mem_append.mp hmem).elim
        (fun hold => List.mem_append_left _ (h.accepted_issued node_key hold))
        (List.mem_append_right _)
    · exact (List.mem_append.mp hmem).elim h.issued_ne fun hnil => ((hnew _).mp hnil).2 rfl
    · cases response with
      | none => trivial
      | some node_key =>
          by_cases hne : node_key = ""
          · exact .inl hne
          · exact .inr ⟨List.mem_append_right _ ((hnew _).mpr ⟨rfl, hne⟩), fun hkept =>
              hnot node_key rfl (h.kept_issued node_key hkept)⟩
    · exact ⟨((hnew _).mp hmem).2, hnot node_key ((hnew _).mp hmem).1⟩
    · cases response with
      | none => cases hcarried
      | some k =>
          obtain rfl := Option.some.inj hcarried
          exact hnot k rfl (h.carried hother hne).1
  · exact h

theorem sound_of_store {issued accepted kept : List String} {stage : Stage}
    (h : stage.Sound issued accepted kept) {more : List String}
    (hmore : ∀ node_key ∈ more, stage.carried ≠ some node_key) :
    stage.Sound issued accepted (kept ++ more) := by
  cases stage with
  | answered request_time response =>
      cases response with
      | none => trivial
      | some node_key =>
          refine h.imp_right fun hand => ⟨hand.1, fun hmem => ?_⟩
          exact (List.mem_append.mp hmem).elim hand.2 fun hnew => hmore node_key hnew rfl
  | _ => exact h

theorem inv_store (h : Inv s) (t : T) : Inv (store s t) := by
  unfold store
  split
  · rename_i request_time node_key hstage
    have hcarried : (s.stage t).carried = some node_key := by rw [hstage]; rfl
    have hnew : ∀ k, k ∈ [node_key].filter (· ≠ "") ↔ k = node_key ∧ k ≠ "" := by
      intro k
      rw [List.mem_filter, List.mem_singleton, decide_eq_true_eq]
    refine ⟨h.accepted_issued, h.issued_ne, fun k hmem => ?_, ?_,
      forall_stage ?_ fun t' ht => sound_of_store (h.sound t') fun k hmem hother => ?_,
      h.distinct.update_none t rfl⟩
    · rcases List.mem_append.mp hmem with hold | hstored
      · exact h.kept_issued k hold
      · obtain ⟨rfl, hne⟩ := (hnew k).mp hstored
        exact (h.carried hcarried hne).1
    · by_cases hne : node_key = ""
      · exact .inl hne
      · exact .inr (List.mem_append_right _ ((hnew _).mpr ⟨rfl, hne⟩))
    · by_cases hne : node_key = ""
      · exact .inl hne
      · exact .inr (h.carried hcarried hne).1
    · obtain ⟨rfl, hne⟩ := (hnew k).mp hmem
      exact ht ((h.distinct t' t k hother hcarried).resolve_left hne)
  · exact h.setStage t (.inl rfl) rfl
  · exact h

theorem inv_send (flags : Flags) (h : Inv s) {t : T} {answer : Answer}
    (hhonest : ∀ node_key status, s.stage t = .keyed node_key →
      checkAnswer flags answer = some (status, true) → node_key ∉ s.accepted) :
    Inv (send flags s t answer) := by
  unfold send
  split
  · rename_i node_key hstage
    have hsound := h.sound t
    rw [hstage] at hsound
    split
    · rename_i status hanswer
      exact h.setStage t ⟨hsound, hhonest node_key status hstage hanswer⟩ rfl
    · exact h.setStage t trivial rfl
  · exact h

theorem Inv.step (flags : Flags) (h : Inv s) {action : Action T} (hhonest : Honest flags s action) :
    Inv (step flags s action) := by
  cases action with
  | look t request_time =>
      change Inv (look s t request_time)
      unfold look
      split
      · refine h.setStage t ?_ (by split <;> rfl)
        split
        · exact h.nodeKey_kept.imp_right (h.kept_issued _)
        · trivial
      · exact h
  | enroll t response =>
      refine inv_enroll h fun node_key hresponse => ?_
      rw [hresponse] at hhonest
      exact hhonest
  | store t => exact inv_store h t
  | storeTime t =>
      change Inv (storeTime s t)
      unfold storeTime
      split
      · rename_i request_time node_key hstage
        have hsound := h.sound t
        rw [hstage] at hsound
        have hnext : Inv (s.setStage t (.keyed node_key)) := h.setStage t hsound rfl
        exact ⟨hnext.1, hnext.2, hnext.3, hnext.4, hnext.5, hnext.6⟩
      · exact h
  | send t answer => exact inv_send flags h hhonest
  | clearNodeKey t =>
      change Inv (clearNodeKey s t)
      unfold clearNodeKey
      split
      · have hnext : Inv (s.setStage t .idle) := h.setStage t trivial rfl
        exact ⟨hnext.1, hnext.2, hnext.3, .inl rfl, hnext.5, hnext.6⟩
      · exact h
  | revoke node_key => exact inv_revoke h node_key

/-! ### Keys that are lost -/

/-- A key is orphaned by a write exactly if the server accepts the one in the store. -/
theorem noneOrphaned_store (h : Inv s) (hnone : NoneOrphaned s) {t : T}
    {request_time node_key : String} (hstage : s.stage t = .answered request_time (some node_key)) :
    NoneOrphaned (store s t) ↔ s.nodeKey ∉ s.accepted := by
  have hcarried : (s.stage t).carried = some node_key := by rw [hstage]; rfl
  have hstore : store s t = { s.setStage t (.stored request_time node_key) with
      nodeKey := node_key, kept := s.kept ++ [node_key].filter (· ≠ "") } := by
    unfold store
    rw [hstage]
  rw [hstore]
  constructor
  · intro hafter hacc
    have hkept := nodeKey_of_accepted h hacc
    have heq : node_key = s.nodeKey := hafter _ (List.mem_append_left _ hkept) hacc
    by_cases hne : node_key = ""
    · rw [← heq, hne] at hacc
      exact h.issued_ne (h.accepted_issued _ hacc)
    · exact (h.carried hcarried hne).2 (heq ▸ hkept)
  · intro hacc k hmem hk
    rcases List.mem_append.mp hmem with hold | hnew
    · exact absurd (hnone k hold hk ▸ hk) hacc
    · exact (List.mem_singleton.mp (List.mem_of_mem_filter hnew)).symm

theorem noneOrphaned_clear (h : Inv s) (hnone : NoneOrphaned s) {t : T} {node_key : String}
    (hstage : s.stage t = .rejected node_key) :
    NoneOrphaned (clearNodeKey s t) ↔ s.nodeKey ∉ s.accepted := by
  have hclear : clearNodeKey s t = { s.setStage t .idle with nodeKey := "" } := by
    unfold clearNodeKey
    rw [hstage]
  rw [hclear]
  constructor
  · intro hafter hacc
    have hempty : "" = s.nodeKey := hafter _ (nodeKey_of_accepted h hacc) hacc
    rw [← hempty] at hacc
    exact h.issued_ne (h.accepted_issued _ hacc)
  · intro hacc k hmem hk
    exact absurd (hnone k hmem hk ▸ hk) hacc

/-- A key that the server issues was not stored before. -/
theorem noneOrphaned_enroll {flags : Flags} (h : Inv s) (hnone : NoneOrphaned s) {t : T}
    {response : Option String} (hhonest : Honest flags s (.enroll t response)) :
    NoneOrphaned (enroll s t response) := by
  unfold enroll
  split
  · rename_i request_time hstage
    refine hnone.of_same rfl rfl fun node_key hkept hacc => ?_
    refine (List.mem_append.mp hacc).resolve_right fun hfresh => ?_
    have hresponse : response = some node_key :=
      Option.mem_toList.mp (List.mem_of_mem_filter hfresh)
    rw [hresponse] at hhonest
    exact hhonest ⟨_, hstage⟩ (h.kept_issued node_key hkept)
  · exact hnone

theorem noneOrphaned_store_iff (h : Inv s) (hnone : NoneOrphaned s) (t : T) :
    NoneOrphaned (store s t) ↔ ¬ WritesOver s (.store t) := by
  cases hstage : s.stage t with
  | answered request_time response =>
      cases response with
      | none =>
          have hstore : store s t = s.setStage t (.keyed "") := by
            unfold store
            rw [hstage]
          refine iff_of_true ?_ fun ⟨_, _, _, hsome⟩ => by rw [hstage] at hsome; cases hsome
          rw [hstore]
          exact hnone
      | some node_key =>
          refine (noneOrphaned_store h hnone hstage).trans (not_congr ?_)
          exact (and_iff_left ⟨_, _, hstage⟩).symm
  | _ =>
      have hstore : store s t = s := by
        unfold store
        rw [hstage]
      refine iff_of_true ?_ fun ⟨_, _, _, hsome⟩ => by rw [hstage] at hsome; cases hsome
      rwa [hstore]

theorem noneOrphaned_clearNodeKey_iff (h : Inv s) (hnone : NoneOrphaned s) (t : T) :
    NoneOrphaned (clearNodeKey s t) ↔ ¬ WritesOver s (.clearNodeKey t) := by
  cases hstage : s.stage t with
  | rejected node_key =>
      have hsound := h.sound t
      rw [hstage] at hsound
      refine (noneOrphaned_clear h hnone hstage).trans (not_congr ?_)
      refine ⟨fun hacc => ⟨hacc, node_key, hstage, fun heq => ?_⟩, And.left⟩
      exact hsound.2 (heq ▸ hacc)
  | _ =>
      have hclear : clearNodeKey s t = s := by
        unfold clearNodeKey
        rw [hstage]
      refine iff_of_true ?_ fun ⟨_, _, hrejected, _⟩ => by rw [hstage] at hrejected; cases hrejected
      rwa [hclear]

theorem noneOrphaned_step_iff (flags : Flags) (h : Inv s) (hnone : NoneOrphaned s)
    {action : Action T} (hhonest : Honest flags s action) :
    NoneOrphaned (step flags s action) ↔ ¬ WritesOver s action := by
  cases action with
  | look t request_time =>
      refine iff_of_true (hnone.of_same ?_ ?_ ?_) id
      all_goals simp only [step, look]; split
      all_goals first | rfl | exact fun _ _ => id
  | enroll t response => exact iff_of_true (noneOrphaned_enroll h hnone hhonest) id
  | store t => exact noneOrphaned_store_iff h hnone t
  | storeTime t =>
      refine iff_of_true (hnone.of_same ?_ ?_ ?_) id
      all_goals simp only [step, storeTime]; split
      all_goals first | rfl | exact fun _ _ => id
  | send t answer =>
      refine iff_of_true (hnone.of_same ?_ ?_ ?_) id
      all_goals simp only [step, send]; repeat' split
      all_goals first | rfl | exact fun _ _ => id
  | clearNodeKey t => exact noneOrphaned_clearNodeKey_iff h hnone t
  | revoke node_key =>
      exact iff_of_true (hnone.of_same rfl rfl fun _ _ => List.mem_of_mem_filter) id

/-- In every run with an honest server, the keys that the server accepts are never more than the
one in the store exactly as long as no thread writes over a key that the server accepts. -/
theorem noneOrphaned_throughout_iff (flags : Flags) {actions : List (Action T)}
    (hhonest : Throughout (step flags) (Honest flags) State.initial actions) :
    Throughout (step flags) (fun s action => NoneOrphaned (step flags s action)) State.initial
        actions ↔
      Throughout (step flags) (fun s action => ¬ WritesOver s action) State.initial actions := by
  have hnone : NoneOrphaned (State.initial : State T) :=
    fun _ hmem => absurd hmem List.not_mem_nil
  refine throughout_iff_of_invariant (I := fun s => Inv s ∧ NoneOrphaned s) ?_ ?_
    ⟨inv_initial, hnone⟩ hhonest
  · rintro s action ⟨hinv, hnone⟩ hhonest
    exact noneOrphaned_step_iff flags hinv hnone hhonest
  · rintro s action ⟨hinv, hnone⟩ hhonest hgood
    exact ⟨hinv.step flags hhonest, (noneOrphaned_step_iff flags hinv hnone hhonest).mpr hgood⟩

/-! ### Two threads -/

def reenrolling : Flags := ⟨false, "example.com", false⟩

/-- Both threads find the store empty, one gets a key and stores it, the other one gets none. -/
def overlappingEnrollments : List (Action Bool) :=
  [.look true "1", .look false "1", .enroll true (some "key"), .store true,
    .enroll false (some ""), .store false]

theorem noneOrphaned_overlapping :
    Throughout (step reenrolling) (fun s action => NoneOrphaned (step reenrolling s action))
        State.initial overlappingEnrollments ↔
      Throughout (step reenrolling) (fun s action => ¬ WritesOver s action) State.initial
        overlappingEnrollments :=
  noneOrphaned_throughout_iff reenrolling
    ⟨trivial, trivial, fun _ => List.not_mem_nil, trivial,
      fun _ hmem => absurd (List.mem_singleton.mp hmem) (by decide), trivial, trivial⟩

/-- The second thread stores the empty key over the one that the first thread got. -/
example : ((overlappingEnrollments.foldl (step reenrolling) State.initial).nodeKey,
    (overlappingEnrollments.foldl (step reenrolling) State.initial).accepted) = ("", ["key"]) := by
  decide

end Osquery.Remote.Enrollment
