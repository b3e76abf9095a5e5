import Osquery.DifferentialQueries.Isolation
import Osquery.DistributedQueries.Queue

/-!
# The runner and the scheduler share a domain

Pending distributed queries lie beside the results, epochs, counters and texts of the
scheduled queries and are told apart by a prefix. The runner touches nothing else as
long as no scheduled query has a name with this prefix, and a single name with it is
enough for the runner to execute and delete stored results.

## Implementation notes

The scheduler runs one call after the other, and its calls are cut at their database
operations. Who wrote a key last, the scheduled names and the keys that the runner
reads or deletes are recorded beside the state; the source has none of them.
-/

namespace Osquery.DistributedQueries

open Foundation.AtomicProgram Foundation.JsonText Core.BackingStore Core.Rows
open DifferentialQueries

inductive Writer
  | acceptWork
  | addNewResults
  deriving DecidableEq

/-- The runner, and the rest of the call that the scheduler is in. -/
structure Daemon extends Distributed where
  call : Option (Prog DbOp Unit)
  writer : String → Option Writer
  scheduled : List String
  touched : List (String × Option Writer)

/-- The store is that of an earlier process. -/
def Daemon.new (db : Database) : Daemon := ⟨.new db, none, fun _ => none, [], []⟩

/-- A step of the runner, a new call of the scheduler, or an operation of its call. -/
inductive Event
  | runner (action : Action)
  | schedule (q : Query) (current_qd : QueryData) (current_epoch : UInt64) (dr : DiffResults)
    (calculate_diff : Bool)
  | resume

/-- The keys of the queries domain that an operation writes. -/
def writtenKeys : {β : Type} → DbOp β → List String
  | _, .putBatch domain data => if domain = kQueries then data.map Prod.fst else []
  | _, _ => []

/-- The key that the runner has chosen. -/
def Phase.chosen : Phase → List String
  | .reading next => [next]
  | .deleting next _ => [next]
  | _ => []

namespace Daemon

/-- The keys that a step of the runner reads or deletes. -/
def taken (s : Daemon) : Action → List String
  | .runQueries _ => s.phase.chosen
  | _ => []

def act (s : Daemon) (action : Action) : Daemon :=
  { s with
    toDistributed := DistributedQueries.step s.toDistributed action
    writer := match action with
      | .accept request =>
          fun key => if queryKey request.id = key then some .acceptWork else s.writer key
      | _ => s.writer
    touched := s.touched ++ (s.taken action).map fun key => (key, s.writer key) }

/-- The next operation of the call of the scheduler. -/
def resume (s : Daemon) : Daemon :=
  match s.call with
  | none => s
  | some (.ret _) => { s with call := none }
  | some (.op o k) =>
      { s with
        db := (Executes.exec o s.db).2
        call := some (k (Executes.exec o s.db).1)
        writer := fun key => if key ∈ writtenKeys o then some .addNewResults else s.writer key }

variable (json : JsonLibrary)

def schedule (q : Query) (current_qd : QueryData) (current_epoch : UInt64) (dr : DiffResults)
    (calculate_diff : Bool) (s : Daemon) : Daemon :=
  match s.call with
  | none =>
      { s with
        call := some ((fun _ => ()) <$> addNewResults json q current_qd current_epoch dr
          calculate_diff)
        scheduled := s.scheduled ++ [q.name] }
  | some _ => s

def step (s : Daemon) : Event → Daemon
  | .runner action => s.act action
  | .schedule q current_qd current_epoch dr calculate_diff =>
      schedule json q current_qd current_epoch dr calculate_diff s
  | .resume => s.resume

def run (events : List Event) (s : Daemon) : Daemon := events.foldl (step json) s

theorem run_append (events events' : List Event) (s : Daemon) :
    run json (events ++ events') s = run json events' (run json events s) := List.foldl_append

/-- The runner read and deleted only what `acceptWork` stored and nobody overwrote, and
nothing that belongs to a scheduled query. -/
def Spared (s : Daemon) : Prop :=
  ∀ entry ∈ s.touched, entry.2 = some .acceptWork ∧ ∀ name ∈ s.scheduled, entry.1 ∉ queryKeys name

end Daemon

/-- The names that are scheduled in a run. -/
def Event.name? : Event → Option String
  | .schedule q _ _ _ _ => some q.name
  | _ => none

/-! ### Keys with the prefix -/

/-- A prefix of a longer text that ends in a character the rest does not have. -/
theorem prefix_of_prefix_append {p a b : List Char} {c : Char} (hlast : p.getLast? = some c)
    (hc : c ∉ b) (h : p <+: a ++ b) : p <+: a := by
  rcases List.prefix_or_prefix_of_prefix h (List.prefix_append a b) with hp | ⟨t, rfl⟩
  · exact hp
  · have ht : t <+: b := (List.prefix_append_right_inj a).mp h
    cases t with
    | nil => simp
    | cons d rest =>
        rw [List.getLast?_append] at hlast
        have hmem : c ∈ d :: rest := List.mem_of_getLast? (by simpa using hlast)
        exact absurd (ht.subset hmem) hc

/-- Of the keys of a query only those of a name with the prefix have the prefix. -/
theorem prefix_of_mem_queryKeys {name key : String} (hkey : key ∈ queryKeys name)
    (hbegins : kDistributedQueryPrefix.toList <+: key.toList) :
    kDistributedQueryPrefix.toList <+: name.toList := by
  have hlast : kDistributedQueryPrefix.toList.getLast? = some '.' := by decide
  simp only [queryKeys, List.mem_cons, List.not_mem_nil, or_false] at hkey
  rcases hkey with rfl | rfl | rfl | rfl
  · exact hbegins
  · rw [String.toList_append] at hbegins
    exact prefix_of_prefix_append hlast (by decide) hbegins
  · rw [String.toList_append] at hbegins
    exact prefix_of_prefix_append hlast (by decide) hbegins
  · rw [String.toList_append] at hbegins
    obtain ⟨t, ht⟩ := hbegins
    have hhead := congrArg List.head? ht
    simp [kDistributedQueryPrefix] at hhead

/-! ### What the steps do to the pending keys -/

theorem pendingKeys_step {s : Distributed} {action : Action} {key : String}
    (h : key ∈ pendingKeys (step s action).db) :
    key ∈ pendingKeys s.db ∨ ∃ request, action = .accept request ∧ queryKey request.id = key := by
  obtain ⟨hstored, hbegins⟩ := mem_pendingKeys.mp h
  have hkeep (hsame : lookup (step s action).db kQueries key = lookup s.db kQueries key) :
      key ∈ pendingKeys s.db := mem_pendingKeys.mpr ⟨hsame ▸ hstored, hbegins⟩
  cases action with
  | accept request =>
      by_cases hkey : queryKey request.id = key
      · exact Or.inr ⟨request, rfl, hkey⟩
      · apply Or.inl (hkeep _)
        simp [step, accept, hkey]
  | accelerate now doc =>
      apply Or.inl (hkeep _)
      simp only [step, accelerate]
      split
      · split
        · simp [kPersistentSettings, kQueries]
        · rfl
      · rfl
  | runQueries outcome =>
      apply Or.inl
      obtain ⟨db, results, currentRequestId, phase, accepted, keys, delivered⟩ := s
      cases phase with
      | idle =>
          simp only [step, advance] at h
          split at h <;> exact h
      | deleting next query =>
          exact List.mem_of_mem_erase ((pendingKeys_remove db next).mem_iff.mp h)
      | _ => exact h
  | flush isWritten =>
      apply Or.inl (hkeep _)
      simp only [step, flush]
      split
      · split <;> rfl
      · rfl

theorem chosen_step {s : Distributed} {action : Action} {key : String}
    (h : key ∈ (step s action).phase.chosen) :
    key ∈ s.phase.chosen ∨ key ∈ pendingKeys s.db := by
  obtain ⟨db, results, currentRequestId, phase, accepted, keys, delivered⟩ := s
  cases action with
  | accept request => exact Or.inl h
  | accelerate now doc =>
      simp only [step, accelerate] at h
      split at h
      · split at h <;> exact Or.inl h
      · exact Or.inl h
  | runQueries outcome =>
      cases phase with
      | idle =>
          simp only [step, advance] at h
          split at h
          · exact Or.inl h
          · rename_i next rest hkeys
            rw [List.mem_singleton.mp h]
            exact Or.inr (hkeys ▸ List.mem_cons_self)
      | reading next => exact Or.inl h
      | _ => exact absurd h List.not_mem_nil
  | flush isWritten =>
      cases phase with
      | idle =>
          simp only [step, flush] at h
          split at h <;> exact absurd h List.not_mem_nil
      | _ => exact Or.inl h

/-! ### Names without the prefix -/

/-- A key that `acceptWork` wrote last, and that no query without the prefix has. -/
def Daemon.Accepted (s : Daemon) (key : String) : Prop :=
  s.writer key = some .acceptWork ∧ kDistributedQueryPrefix.toList <+: key.toList

/-- The invariant of a daemon whose scheduled queries have certain names. -/
structure Sound (names : String → Prop) (s : Daemon) : Prop where
  pending : ∀ key ∈ pendingKeys s.db, s.Accepted key
  chosen : ∀ key ∈ s.phase.chosen, s.Accepted key
  call : ∀ p, s.call = some p → ∃ name, names name ∧
    p.Only (DbOp.WritesWithin kQueries (queryKeys name))
  scheduled : ∀ name ∈ s.scheduled, names name
  touched : ∀ entry ∈ s.touched, entry.2 = some .acceptWork ∧
    kDistributedQueryPrefix.toList <+: entry.1.toList

namespace Sound

variable {names : String → Prop} {s : Daemon}

theorem new {db : Database} (h : pendingKeys db = []) : Sound names (.new db) := by
  refine ⟨?_, fun _ hkey => absurd hkey List.not_mem_nil, fun _ hp => absurd hp nofun,
    fun _ hname => absurd hname List.not_mem_nil, fun _ hentry => absurd hentry List.not_mem_nil⟩
  intro key hkey
  change key ∈ pendingKeys db at hkey
  rw [h] at hkey
  exact absurd hkey List.not_mem_nil

theorem act (h : Sound names s) (action : Action) : Sound names (s.act action) := by
  have hkeep : ∀ key, s.Accepted key → (s.act action).Accepted key := by
    intro key hkey
    refine ⟨?_, hkey.2⟩
    cases action with
    | accept request =>
        simp only [Daemon.act]
        split
        · rfl
        · exact hkey.1
    | _ => exact hkey.1
  constructor
  · intro key hkey
    rcases pendingKeys_step hkey with hold | ⟨request, rfl, rfl⟩
    · exact hkeep key (h.pending key hold)
    · exact ⟨if_pos rfl, prefix_queryKey request.id⟩
  · intro key hkey
    rcases chosen_step hkey with hold | hold
    · exact hkeep key (h.chosen key hold)
    · exact hkeep key (h.pending key hold)
  · exact h.call
  · exact h.scheduled
  · intro entry hentry
    rcases List.mem_append.mp hentry with hold | hnew
    · exact h.touched entry hold
    · obtain ⟨key, hkey, rfl⟩ := List.mem_map.mp hnew
      cases action with
      | runQueries outcome => exact h.chosen key hkey
      | _ => exact absurd hkey List.not_mem_nil

theorem schedule (h : Sound names s) (json : JsonLibrary) {q : Query} (hq : names q.name)
    (current_qd : QueryData) (current_epoch : UInt64) (dr : DiffResults) (calculate_diff : Bool) :
    Sound names (s.schedule json q current_qd current_epoch dr calculate_diff) := by
  rw [Daemon.schedule]
  split
  · refine ⟨h.pending, h.chosen, ?_, ?_, h.touched⟩
    · intro p hp
      obtain rfl := Option.some.inj hp
      exact ⟨q.name, hq, Prog.only_map (addNewResults_writesWithin json q _ _ _ _)⟩
    · intro name hname
      rcases List.mem_append.mp hname with hold | hnew
      · exact h.scheduled name hold
      · exact List.mem_singleton.mp hnew ▸ hq
  · exact h

/-- An operation of a call writes keys of its query only. -/
theorem writtenKeys_subset {β : Type} {o : DbOp β} {keys : List String}
    (h : DbOp.WritesWithin kQueries keys β o) : ∀ key ∈ writtenKeys o, key ∈ keys := by
  intro key hkey
  cases o with
  | putBatch domain data =>
      obtain ⟨rfl, hdata⟩ := h
      obtain ⟨p, hp, rfl⟩ := List.mem_map.mp hkey
      exact hdata p hp
  | _ => exact absurd hkey List.not_mem_nil

theorem resume (h : Sound names s)
    (hnames : ∀ name, names name → ¬kDistributedQueryPrefix.toList <+: name.toList) :
    Sound names s.resume := by
  rw [Daemon.resume]
  split
  · exact h
  · exact ⟨h.pending, h.chosen, fun _ hp => absurd hp nofun, h.scheduled, h.touched⟩
  · rename_i β o k hcall
    obtain ⟨name, hname, honly⟩ := h.call _ hcall
    cases honly with
    | op ho hk =>
        have houtside (key : String) (hbegins : kDistributedQueryPrefix.toList <+: key.toList) :
            key ∉ queryKeys name :=
          fun hmem => hnames name hname (prefix_of_mem_queryKeys hmem hbegins)
        have hwriter (key : String) (hkey : s.Accepted key) :
            (if key ∈ writtenKeys o then some Writer.addNewResults else s.writer key) =
              some .acceptWork := by
          rw [if_neg fun hmem => houtside key hkey.2 (writtenKeys_subset ho key hmem)]
          exact hkey.1
        constructor
        · intro key hkey
          obtain ⟨hstored, hbegins⟩ := mem_pendingKeys.mp hkey
          have hsame :=
            lookup_run_of_writesWithin (Prog.only_perform ho) (houtside key hbegins) s.db
          rw [Prog.run_perform] at hsame
          have hold : key ∈ pendingKeys s.db := mem_pendingKeys.mpr ⟨hsame ▸ hstored, hbegins⟩
          exact ⟨hwriter key (h.pending key hold), hbegins⟩
        · intro key hkey
          exact ⟨hwriter key (h.chosen key hkey), (h.chosen key hkey).2⟩
        · intro p hp
          obtain rfl := Option.some.inj hp
          exact ⟨name, hname, hk _⟩
        · exact h.scheduled
        · exact h.touched

theorem run (h : Sound names s) (json : JsonLibrary)
    (hnames : ∀ name, names name → ¬kDistributedQueryPrefix.toList <+: name.toList)
    {events : List Event} (hevents : ∀ name ∈ events.filterMap Event.name?, names name) :
    Sound names (Daemon.run json events s) := by
  induction events generalizing s with
  | nil => exact h
  | cons event events ih =>
      have htail : ∀ name ∈ events.filterMap Event.name?, names name := by
        intro name hname
        apply hevents
        rw [List.filterMap_cons]
        split
        · exact hname
        · exact List.mem_cons_of_mem _ hname
      refine ih ?_ htail
      cases event with
      | runner action => exact h.act action
      | schedule q current_qd current_epoch dr calculate_diff =>
          exact h.schedule json (hevents _ List.mem_cons_self) _ _ _ _
      | resume => exact h.resume hnames

theorem spared (h : Sound names s)
    (hnames : ∀ name, names name → ¬kDistributedQueryPrefix.toList <+: name.toList) :
    s.Spared := by
  intro entry hentry
  obtain ⟨hwriter, hbegins⟩ := h.touched entry hentry
  refine ⟨hwriter, ?_⟩
  intro name hname hkey
  exact hnames name (h.scheduled name hname) (prefix_of_mem_queryKeys hkey hbegins)

end Sound

/-! ### A name with the prefix -/

/-- A call runs to its end. -/
theorem resume_all (json : JsonLibrary) (p : Prog DbOp Unit) (s : Daemon) (hcall : s.call = some p)
    (hwriter : ∀ key, s.writer key ≠ some .acceptWork) :
    ∃ n writer, (∀ key, writer key ≠ some Writer.acceptWork) ∧
      Daemon.run json (List.replicate n .resume) s =
        { s with db := (p.run s.db).2, call := none, writer := writer } := by
  induction p generalizing s with
  | ret a =>
      refine ⟨1, s.writer, hwriter, ?_⟩
      simp [Daemon.run, Daemon.step, Daemon.resume, hcall, Prog.run]
  | op o k ih =>
      have hresume : s.resume =
          { s with
            db := (Executes.exec o s.db).2
            call := some (k (Executes.exec o s.db).1)
            writer := fun key =>
              if key ∈ writtenKeys o then some .addNewResults else s.writer key } := by
        rw [Daemon.resume, hcall]
      obtain ⟨n, writer, hnot, hrun⟩ := ih (Executes.exec o s.db).1 s.resume (by rw [hresume]) (by
        intro key
        rw [hresume]
        dsimp only
        split
        · exact nofun
        · exact hwriter key)
      refine ⟨n + 1, writer, hnot, ?_⟩
      rw [hresume] at hrun
      rw [List.replicate_succ]
      change Daemon.run json (List.replicate n .resume) s.resume = _
      rw [hresume, hrun]
      rfl

/-- An idle runner reads the first pending key, whoever wrote it. -/
theorem touched_two_steps (json : JsonLibrary) {s : Daemon} {next : String} {rest : List String}
    (hidle : s.phase = .idle) (hkeys : pendingKeys s.db = next :: rest) (outcome : SQL) :
    (next, s.writer next) ∈
      (Daemon.run json (List.replicate 2 (.runner (.runQueries outcome))) s).touched := by
  have hfirst :
      advance outcome s.toDistributed = { s.toDistributed with phase := .reading next } := by
    rw [advance, hidle, hkeys]
  have hstep : s.act (.runQueries outcome) =
      { s with toDistributed := { s.toDistributed with phase := .reading next } } := by
    simp [Daemon.act, Daemon.taken, hidle, Phase.chosen, step, hfirst]
  change _ ∈ ((s.act (.runQueries outcome)).act (.runQueries outcome)).touched
  rw [hstep]
  exact List.mem_append_right _ (List.mem_singleton_self _)

/-- A runner that nobody gave work takes whatever a call leaves under a pending key. -/
theorem not_spared_of_pending (json : JsonLibrary) (call : Prog DbOp Unit) (names : List String)
    {next : String} {rest : List String} (hkeys : pendingKeys (call.run ∅).2 = next :: rest) :
    ∃ n, ¬(Daemon.run json
      (List.replicate n .resume ++ List.replicate 2 (.runner (.runQueries ⟨.success, [], []⟩)))
        { Daemon.new ∅ with call := some call, scheduled := names }).Spared := by
  obtain ⟨n, writer, hnot, hrun⟩ := resume_all json call
    { Daemon.new ∅ with call := some call, scheduled := names } rfl (fun _ => nofun)
  refine ⟨n, fun hspared => ?_⟩
  rw [Daemon.run_append, hrun] at hspared
  exact hnot next (hspared _ (touched_two_steps json rfl hkeys _)).1

/-- The runner takes the stored results of a query whose name has the prefix. -/
theorem not_spared_of_prefix (json : JsonLibrary) {name : String}
    (h : kDistributedQueryPrefix.toList <+: name.toList) :
    ∃ n, ¬(Daemon.run json (.schedule ⟨name, ""⟩ [] 0 {} true ::
      (List.replicate n .resume ++ List.replicate 2 (.runner (.runQueries ⟨.success, [], []⟩))))
        (.new ∅)).Spared := by
  have hpending : name ∈ pendingKeys (((fun _ => ()) <$>
      addNewResults json ⟨name, ""⟩ [] 0 {} true : Prog DbOp Unit).run ∅).2 := by
    apply mem_pendingKeys.mpr
    refine ⟨?_, h⟩
    have hnone : (view ∅ (Query.mk name "").name).results = none := by rw [view_empty]
    have hview := congrArg QueryRecord.results (view_firstRun json hnone [] 0 {} true)
    change lookup _ kQueries name = some (serializeQueryDataJSON json []) at hview
    rw [Prog.run_map, hview]
    rfl
  obtain ⟨next, rest, hkeys⟩ := List.exists_cons_of_ne_nil (List.ne_nil_of_mem hpending)
  exact not_spared_of_pending json _ [name] hkeys

/-- The runner spares what is not its own, in every run of a daemon whose scheduled
queries have certain names, exactly when none of these names has the prefix. -/
theorem spared_iff (json : JsonLibrary) (names : String → Prop) :
    (∀ db, pendingKeys db = [] → ∀ events : List Event,
      (∀ name ∈ events.filterMap Event.name?, names name) →
        (Daemon.run json events (.new db)).Spared) ↔
      ∀ name, names name → ¬kDistributedQueryPrefix.toList <+: name.toList := by
  constructor
  · intro hall name hname hbegins
    obtain ⟨n, hnot⟩ := not_spared_of_prefix json hbegins
    refine hnot (hall ∅ (by simp [pendingKeys, Ephemeral.scan, Ephemeral.domainOf]) _ ?_)
    intro other hother
    have heq : other = name := by
      simpa [Event.name?, List.filterMap_append, List.filterMap_replicate] using hother
    exact heq ▸ hname
  · intro hnames db hempty events hevents
    exact ((Sound.new hempty).run json hnames hevents).spared hnames

/-- A scheduled query of this name loses its results to the runner. -/
theorem scheduled_results_taken :
    ¬∀ (db : Database), pendingKeys db = [] → ∀ events : List Event,
      (Daemon.run reference events (.new db)).Spared := by
  intro hall
  have hbegins : kDistributedQueryPrefix.toList <+:
      (kDistributedQueryPrefix ++ "status").toList := by decide
  obtain ⟨n, hnot⟩ := not_spared_of_prefix reference hbegins
  exact hnot (hall ∅ (by simp [pendingKeys, Ephemeral.scan, Ephemeral.domainOf]) _)

end Osquery.DistributedQueries
