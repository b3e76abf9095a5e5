import Osquery.Foundation.Locks
import Osquery.Foundation.Simulation

/-!
# Connections to the SQL engine

The manager owns one database and an instance that wraps it. A thread that asks for a connection
gets the database of the manager if no one else has it, and a database of its own otherwise. A
thread that asks for the primary connection gets the instance of the manager, without a lock. A
reset drops the instance and closes the database.

A thread that was given the database keeps it open, whatever other threads do. An instance that
is handed out without a lock is there, and its database open, exactly as long as no reset comes
between.

## Implementation notes

Databases are numbered in the order in which they are opened for the manager; databases of a
thread's own are not counted. Each step is what a thread does between two points where it may
have to wait for a lock or where the instance may be dropped. A thread that has the database may
ask for the primary connection in addition. The tables that are attached are left out.
-/

namespace Osquery.Sql.Connections

open Foundation.Locks Foundation.Simulation

/-- What a thread is doing with connections. -/
inductive Phase
  | idle
  /-- It opened the database of the manager and attaches tables to it. -/
  | attaching (primary : Bool)
  /-- It is in `getConnection`, and the manager has a database. -/
  | entered (primary : Bool)
  /-- It has the database of the manager. -/
  | managed (db : ℕ)
  /-- It has the database, and is in `getConnection` once more. -/
  | nested (db : ℕ)
  /-- It has the database, and the instance of the manager. -/
  | nestedForwarded (db : ℕ) (connection : Option ℕ)
  /-- It has a database of its own. -/
  | transient
  /-- It has what was the instance of the manager. -/
  | forwarded (connection : Option ℕ)
  /-- It is in a reset that has dropped the instance. -/
  | resetting
  /-- It is in a reset that has closed the database. -/
  | reset
deriving DecidableEq

namespace Phase

/-- The thread holds the lock of the database. -/
def HoldsMutex : Phase → Prop
  | managed _ | nested _ | nestedForwarded _ _ | resetting | reset => True
  | _ => False

/-- The thread holds the lock for creating the database. -/
def HoldsCreate : Phase → Prop
  | attaching _ | entered _ | nested _ => True
  | _ => False

/-- The database that the thread was given. -/
def given? : Phase → Option ℕ
  | managed db | nested db | nestedForwarded db _ => some db
  | _ => none

end Phase

structure State (T : Type) where
  db_ : Option ℕ := none
  connection_ : Option ℕ := none
  mutex_ : Option T := none
  create_mutex_ : Option T := none
  opened : ℕ := 0
  closed : List ℕ := []
  phase : T → Phase := fun _ => .idle

inductive Action (T : Type)
  | enter (t : T) (primary : Bool)
  | attach (t : T)
  | finish (t : T)
  | release (t : T)
  | enterNested (t : T)
  | finishNested (t : T)
  | releaseNested (t : T)
  | beginReset (t : T)
  | close (t : T)
  | endReset (t : T)

variable {T : Type} [DecidableEq T]

namespace State

def become (s : State T) (t : T) (phase : Phase) : State T :=
  { s with phase := Function.update s.phase t phase }

/-- The database is opened if there is none. -/
def enter (s : State T) (t : T) (primary : Bool) : State T :=
  if s.phase t = .idle ∧ s.create_mutex_ = none then
    match s.db_ with
    | none =>
        { s.become t (.attaching primary) with
          create_mutex_ := some t
          db_ := some s.opened
          connection_ := some s.opened
          opened := s.opened + 1 }
    | some _ => { s.become t (.entered primary) with create_mutex_ := some t }
  else s

/-- The instance is returned, or the lock of the database is tried. -/
def finish (s : State T) (t : T) : State T :=
  match s.phase t, s.db_ with
  | .entered true, _ => { s.become t (.forwarded s.connection_) with create_mutex_ := none }
  | .entered false, some db =>
      if s.mutex_ = none then
        { s.become t (.managed db) with create_mutex_ := none, mutex_ := some t }
      else { s.become t .transient with create_mutex_ := none }
  | _, _ => s

def release (s : State T) (t : T) : State T :=
  match s.phase t with
  | .managed _ => { s.become t .idle with mutex_ := none }
  | .transient => s.become t .idle
  | .forwarded _ => s.become t .idle
  | _ => s

/-- The manager has a database as long as a thread was given it. -/
def enterNested (s : State T) (t : T) : State T :=
  match s.phase t with
  | .managed db =>
      if s.create_mutex_ = none then { s.become t (.nested db) with create_mutex_ := some t }
      else s
  | _ => s

def finishNested (s : State T) (t : T) : State T :=
  match s.phase t with
  | .nested db => { s.become t (.nestedForwarded db s.connection_) with create_mutex_ := none }
  | _ => s

def releaseNested (s : State T) (t : T) : State T :=
  match s.phase t with
  | .nestedForwarded db _ => s.become t (.managed db)
  | _ => s

def beginReset (s : State T) (t : T) : State T :=
  if s.phase t = .idle ∧ s.mutex_ = none then
    { s.become t .resetting with mutex_ := some t, connection_ := none }
  else s

def close (s : State T) (t : T) : State T :=
  if s.phase t = .resetting ∧ s.create_mutex_ = none then
    { s.become t .reset with db_ := none, closed := s.closed ++ s.db_.toList }
  else s

def endReset (s : State T) (t : T) : State T :=
  if s.phase t = .reset then { s.become t .idle with mutex_ := none } else s

end State

def step (s : State T) : Action T → State T
  | .enter t primary => s.enter t primary
  | .attach t =>
      match s.phase t with
      | .attaching primary => s.become t (.entered primary)
      | _ => s
  | .finish t => s.finish t
  | .release t => s.release t
  | .enterNested t => s.enterNested t
  | .finishNested t => s.finishNested t
  | .releaseNested t => s.releaseNested t
  | .beginReset t => s.beginReset t
  | .close t => s.close t
  | .endReset t => s.endReset t

/-! ### What every step keeps -/

/-- A thread that was given the database holds its lock. -/
theorem holdsMutex_of_given {p : Phase} {db : ℕ} (h : p.given? = some db) : p.HoldsMutex := by
  cases p with
  | managed db => trivial
  | nested db => trivial
  | nestedForwarded db connection => trivial
  | _ => cases h

structure Inv (s : State T) : Prop where
  mutex : Guards Phase.HoldsMutex s.mutex_ s.phase
  create : Guards Phase.HoldsCreate s.create_mutex_ s.phase
  given : ∀ t db, (s.phase t).given? = some db → s.db_ = some db
  created : ∀ t, (s.phase t).HoldsCreate → s.db_ ≠ none
  current : ∀ db, s.db_ = some db → db < s.opened ∧ db ∉ s.closed
  past : ∀ db ∈ s.closed, db < s.opened
  connection : ∀ db, s.db_ = some db →
    s.connection_ = some db ∨ s.connection_ = none ∧ ∃ t, s.phase t = .resetting
  forwarded : ∀ t db connection, s.phase t = .nestedForwarded db connection →
    connection = some db

variable {s : State T}

omit [DecidableEq T] in
theorem inv_initial : Inv ({} : State T) where
  mutex := guards_none id
  create := guards_none id
  given := nofun
  created := nofun
  current := nofun
  past := nofun
  connection := nofun
  forwarded := nofun

omit [DecidableEq T] in
/-- Of the threads that hold the lock of the database only one can be in a reset. -/
theorem Inv.not_resetting (h : Inv s) {t : T} (hmutex : (s.phase t).HoldsMutex)
    (ht : s.phase t ≠ .resetting) (u : T) : s.phase u ≠ .resetting := by
  intro hu
  obtain rfl := h.mutex.unique hmutex (by rw [hu]; trivial)
  exact ht hu

/-- Facts about the phases of all threads, when one of them changes. -/
theorem forall_phase_update {Q : T → Phase → Prop} {t : T} {p : Phase}
    (h : ∀ u, Q u (s.phase u)) (hp : Q t p) (u : T) : Q u (Function.update s.phase t p u) :=
  (Function.forall_update_iff s.phase Q).mpr ⟨hp, fun u _ => h u⟩ u

/-- A reset that has dropped the instance goes on when another thread takes a step. -/
theorem exists_resetting_update {t : T} {p : Phase} (ht : s.phase t ≠ .resetting)
    (h : ∃ u, s.phase u = .resetting) : ∃ u, Function.update s.phase t p u = .resetting := by
  obtain ⟨u, hu⟩ := h
  refine ⟨u, ?_⟩
  rw [Function.update_of_ne, hu]
  rintro rfl
  exact ht hu

/-- A thread changes its phase, and takes locks or gives them back. -/
theorem Inv.become (h : Inv s) {t : T} {p : Phase} {m c : Option T}
    (hmutex : Guards Phase.HoldsMutex m (Function.update s.phase t p))
    (hcreate : Guards Phase.HoldsCreate c (Function.update s.phase t p))
    (hgiven : ∀ db, p.given? = some db → s.db_ = some db) (hcreated : p.HoldsCreate → s.db_ ≠ none)
    (hreset : s.phase t ≠ .resetting)
    (hforwarded : ∀ db connection, p = .nestedForwarded db connection → connection = some db) :
    Inv { s.become t p with mutex_ := m, create_mutex_ := c } where
  mutex := hmutex
  create := hcreate
  given := forall_phase_update (Q := fun _ q => ∀ db, q.given? = some db → s.db_ = some db)
    h.given hgiven
  created := forall_phase_update (Q := fun _ q => q.HoldsCreate → s.db_ ≠ none) h.created hcreated
  current := h.current
  past := h.past
  connection db hdb := (h.connection db hdb).imp_right fun hnone =>
    ⟨hnone.1, exists_resetting_update hreset hnone.2⟩
  forwarded := forall_phase_update
    (Q := fun _ q => ∀ db connection, q = .nestedForwarded db connection → connection = some db)
    h.forwarded hforwarded

/-- A database that is opened for the manager is a new one. -/
theorem Inv.openDatabase (h : Inv s) (hdb : s.db_ = none) {t : T} {primary : Bool}
    (hidle : s.phase t = .idle) (hfree : s.create_mutex_ = none) :
    Inv { s.become t (.attaching primary) with
      create_mutex_ := some t
      db_ := some s.opened
      connection_ := some s.opened
      opened := s.opened + 1 } where
  mutex := h.mutex.keep (by rw [hidle]; exact Iff.rfl)
  create := (hfree ▸ h.create).acquire trivial
  given := forall_phase_update
    (Q := fun _ q => ∀ db, q.given? = some db → some s.opened = some db)
    (fun u db hgiven => nomatch hdb.symm.trans (h.given u db hgiven)) nofun
  created _ _ := nofun
  current db hopened := by
    obtain rfl := Option.some.inj hopened
    exact ⟨Nat.lt_succ_self _, fun hclosed => Nat.lt_irrefl _ (h.past _ hclosed)⟩
  past db hclosed := Nat.lt_trans (h.past db hclosed) (Nat.lt_succ_self _)
  connection _ hopened := .inl hopened
  forwarded := forall_phase_update
    (Q := fun _ q => ∀ db connection, q = .nestedForwarded db connection → connection = some db)
    h.forwarded nofun

theorem Inv.enter (h : Inv s) (t : T) (primary : Bool) : Inv (s.enter t primary) := by
  rw [State.enter]
  split
  · next henter =>
      obtain ⟨hidle, hfree⟩ := henter
      cases hdb : s.db_ with
      | none => exact h.openDatabase hdb hidle hfree
      | some db =>
          refine h.become (h.mutex.keep ?_) ((hfree ▸ h.create).acquire trivial) nofun ?_ ?_ nofun
          · rw [hidle]
            exact Iff.rfl
          · rw [hdb]
            nofun
          · rw [hidle]
            nofun
  · exact h

theorem Inv.finish (h : Inv s) (t : T) : Inv (s.finish t) := by
  rw [State.finish]
  split
  · next hentered =>
      refine h.become (h.mutex.keep ?_) (h.create.release (t := t) ?_ id) nofun nofun ?_ nofun
      · rw [hentered]
        exact Iff.rfl
      · rw [hentered]
        trivial
      · rw [hentered]
        nofun
  · next db hentered hdb =>
      have hreset : s.phase t ≠ .resetting := by
        rw [hentered]
        nofun
      have hcreate : (s.phase t).HoldsCreate := by
        rw [hentered]
        trivial
      split
      · next hfree =>
          refine h.become ((hfree ▸ h.mutex).acquire trivial) (h.create.release hcreate id) ?_
            nofun hreset nofun
          intro db' hdb'
          rw [hdb]
          exact hdb'
      · refine h.become (h.mutex.keep ?_) (h.create.release hcreate id) nofun nofun hreset nofun
        rw [hentered]
        exact Iff.rfl
  · exact h

theorem Inv.release (h : Inv s) (t : T) : Inv (s.release t) := by
  rw [State.release]
  split
  · next db hmanaged =>
      refine h.become (h.mutex.release (t := t) ?_ id) (h.create.keep ?_) nofun nofun ?_ nofun
      · rw [hmanaged]
        trivial
      · rw [hmanaged]
        exact Iff.rfl
      · rw [hmanaged]
        nofun
  · next htransient =>
      refine h.become (h.mutex.keep ?_) (h.create.keep ?_) nofun nofun ?_ nofun
      · rw [htransient]
        exact Iff.rfl
      · rw [htransient]
        exact Iff.rfl
      · rw [htransient]
        nofun
  · next connection hforwarded =>
      refine h.become (h.mutex.keep ?_) (h.create.keep ?_) nofun nofun ?_ nofun
      · rw [hforwarded]
        exact Iff.rfl
      · rw [hforwarded]
        exact Iff.rfl
      · rw [hforwarded]
        nofun
  · exact h

theorem Inv.enterNested (h : Inv s) (t : T) : Inv (s.enterNested t) := by
  rw [State.enterNested]
  split
  · next db hmanaged =>
      have hgiven := h.given t db (by rw [hmanaged]; rfl)
      split
      · next hfree =>
          refine h.become (h.mutex.keep ?_) ((hfree ▸ h.create).acquire trivial) ?_ ?_ ?_ nofun
          · rw [hmanaged]
            exact Iff.rfl
          · intro db' hdb'
            exact hgiven.trans hdb'
          · rw [hgiven]
            nofun
          · rw [hmanaged]
            nofun
      · exact h
  · exact h

theorem Inv.finishNested (h : Inv s) (t : T) : Inv (s.finishNested t) := by
  rw [State.finishNested]
  split
  · next db hnested =>
      have hgiven := h.given t db (by rw [hnested]; rfl)
      have hreset : s.phase t ≠ .resetting := by
        rw [hnested]
        nofun
      refine h.become (h.mutex.keep ?_) (h.create.release (t := t) ?_ id) ?_ nofun hreset ?_
      · rw [hnested]
        exact Iff.rfl
      · rw [hnested]
        trivial
      · intro db' hdb'
        exact hgiven.trans hdb'
      · rintro _ _ ⟨⟩
        refine (h.connection db hgiven).resolve_right fun ⟨_, u, hu⟩ => ?_
        exact h.not_resetting (by rw [hnested]; trivial) hreset u hu
  · exact h

theorem Inv.releaseNested (h : Inv s) (t : T) : Inv (s.releaseNested t) := by
  rw [State.releaseNested]
  split
  · next db connection hforwarded =>
      refine h.become (h.mutex.keep ?_) (h.create.keep ?_) ?_ nofun ?_ nofun
      · rw [hforwarded]
        exact Iff.rfl
      · rw [hforwarded]
        exact Iff.rfl
      · intro db' hdb'
        exact (h.given t db (by rw [hforwarded]; rfl)).trans hdb'
      · rw [hforwarded]
        nofun
  · exact h

theorem Inv.beginReset (h : Inv s) (t : T) : Inv (s.beginReset t) := by
  rw [State.beginReset]
  split
  · next hbegin =>
      obtain ⟨hidle, hfree⟩ := hbegin
      exact
        { mutex := (hfree ▸ h.mutex).acquire trivial
          create := h.create.keep (by rw [hidle]; exact Iff.rfl)
          given := forall_phase_update
            (Q := fun _ q => ∀ db, q.given? = some db → s.db_ = some db) h.given nofun
          created := forall_phase_update (Q := fun _ q => q.HoldsCreate → s.db_ ≠ none)
            h.created nofun
          current := h.current
          past := h.past
          connection := fun _ _ => .inr ⟨rfl, t, Function.update_self ..⟩
          forwarded := forall_phase_update
            (Q := fun _ q => ∀ db connection, q = .nestedForwarded db connection →
              connection = some db) h.forwarded nofun }
  · exact h

theorem Inv.close (h : Inv s) (t : T) : Inv (s.close t) := by
  rw [State.close]
  split
  · next hclose =>
      obtain ⟨hresetting, hfree⟩ := hclose
      have hmutex : (s.phase t).HoldsMutex := by
        rw [hresetting]
        trivial
      have hnone : ∀ u db, (s.phase u).given? ≠ some db := by
        intro u db hgiven
        obtain rfl := h.mutex.unique hmutex (holdsMutex_of_given hgiven)
        rw [hresetting] at hgiven
        cases hgiven
      have hclosed : ∀ db ∈ s.closed ++ s.db_.toList, db < s.opened := by
        intro db hdb
        rcases List.mem_append.mp hdb with hpast | hcurrent
        · exact h.past db hpast
        · exact (h.current db (Option.mem_toList.mp hcurrent)).1
      exact
        { mutex := h.mutex.keep (iff_of_true trivial hmutex)
          create := h.create.keep (by rw [hresetting]; exact Iff.rfl)
          given := forall_phase_update (Q := fun _ q => ∀ db, q.given? = some db → none = some db)
            (fun u db hgiven => absurd hgiven (hnone u db)) nofun
          created := forall_phase_update (Q := fun _ q => q.HoldsCreate → none ≠ none)
            (fun u hu => absurd hu ((hfree ▸ h.create).outside u)) nofun
          current := nofun
          past := hclosed
          connection := nofun
          forwarded := forall_phase_update
            (Q := fun _ q => ∀ db connection, q = .nestedForwarded db connection →
              connection = some db) h.forwarded nofun }
  · exact h

theorem Inv.endReset (h : Inv s) (t : T) : Inv (s.endReset t) := by
  rw [State.endReset]
  split
  · next hreset =>
      refine h.become (h.mutex.release (t := t) ?_ id) (h.create.keep ?_) nofun nofun ?_ nofun
      · rw [hreset]
        trivial
      · rw [hreset]
        exact Iff.rfl
      · rw [hreset]
        nofun
  · exact h

theorem Inv.step (h : Inv s) (action : Action T) : Inv (Connections.step s action) := by
  cases action with
  | enter t primary => exact h.enter t primary
  | attach t =>
      rw [Connections.step]
      split
      · next primary hattaching =>
          have hcreate : (s.phase t).HoldsCreate := by
            rw [hattaching]
            trivial
          refine h.become (h.mutex.keep ?_) (h.create.keep (iff_of_true trivial hcreate)) nofun
            (fun _ => h.created t hcreate) ?_ nofun
          · rw [hattaching]
            exact Iff.rfl
          · rw [hattaching]
            nofun
      · exact h
  | finish t => exact h.finish t
  | release t => exact h.release t
  | enterNested t => exact h.enterNested t
  | finishNested t => exact h.finishNested t
  | releaseNested t => exact h.releaseNested t
  | beginReset t => exact h.beginReset t
  | close t => exact h.close t
  | endReset t => exact h.endReset t

theorem inv_foldl (actions : List (Action T)) : Inv (actions.foldl step {}) := by
  have hrun : ∀ s : State T, Inv s → Inv (actions.foldl step s) := by
    induction actions with
    | nil => exact fun s h => h
    | cons action actions ih => exact fun s h => ih _ (h.step action)
  exact hrun _ inv_initial

/-- In every interleaving, a thread that was given the database of the manager is the only one,
the database is open and is that of the manager, and so is the instance that the thread asks for
in addition. -/
theorem given_open (actions : List (Action T)) (t : T) (db : ℕ)
    (hgiven : ((actions.foldl step {}).phase t).given? = some db) :
    (∀ u db', ((actions.foldl step {}).phase u).given? = some db' → u = t) ∧
      (actions.foldl step {}).db_ = some db ∧ db ∉ (actions.foldl step {}).closed ∧
      ∀ db' connection, (actions.foldl step {}).phase t = .nestedForwarded db' connection →
        connection = some db := by
  have h := inv_foldl actions
  have hholds := holdsMutex_of_given hgiven
  have hdb := h.given t db hgiven
  refine ⟨fun u db' hu => h.mutex.unique (holdsMutex_of_given hu) hholds, hdb,
    (h.current db hdb).2, ?_⟩
  intro db' connection hforwarded
  have hsame : db' = db := by
    rw [hforwarded] at hgiven
    exact Option.some.inj hgiven
  rw [← hsame]
  exact h.forwarded t db' connection hforwarded

/-- The first of two threads is given the database, which the other one finds locked, and asks
for the primary connection in addition. -/
def firstConnection : List (Action Bool) :=
  [.enter true false, .attach true, .finish true, .enter false false, .enterNested true,
    .finish false, .enterNested true, .finishNested true]

theorem given_firstConnection :
    (firstConnection.foldl step {}).db_ = some 0 ∧ 0 ∉ (firstConnection.foldl step {}).closed ∧
      ∀ db connection,
        (firstConnection.foldl step {}).phase true = .nestedForwarded db connection →
          connection = some 0 :=
  (given_open firstConnection true 0 rfl).2

/-! ### Instances that are handed out without a lock -/

/-- The instance is there while its tables are attached, and what was handed out is an instance
whose database is open. -/
structure Safe (s : State T) : Prop where
  attaching : ∀ t primary, s.phase t = .attaching primary → s.connection_ ≠ none
  forwarded : ∀ t connection, s.phase t = .forwarded connection →
    ∃ db, connection = some db ∧ db ∉ s.closed

/-- A reset drops the instance while tables are attached to it, the instance is asked for when it
is dropped, or the database is closed while its instance is handed out. -/
def Clash (s : State T) : Action T → Prop
  | .beginReset t => s.phase t = .idle ∧ s.mutex_ = none ∧
      ∃ u primary, s.phase u = .attaching primary
  | .finish t => s.phase t = .entered true ∧ s.connection_ = none
  | .close t => s.phase t = .resetting ∧ s.create_mutex_ = none ∧
      ∃ u db, s.db_ = some db ∧ s.phase u = .forwarded (some db)
  | _ => False

theorem Safe.become (h : Safe s) {t : T} {p : Phase} {m c : Option T}
    (hattaching : ∀ primary, p ≠ .attaching primary)
    (hforwarded : ∀ connection, p = .forwarded connection →
      ∃ db, connection = some db ∧ db ∉ s.closed) :
    Safe { s.become t p with mutex_ := m, create_mutex_ := c } where
  attaching := forall_phase_update
    (Q := fun _ q => ∀ primary, q = .attaching primary → s.connection_ ≠ none) h.attaching
    fun primary hp => absurd hp (hattaching primary)
  forwarded := forall_phase_update
    (Q := fun _ q => ∀ connection, q = .forwarded connection →
      ∃ db, connection = some db ∧ db ∉ s.closed) h.forwarded hforwarded

theorem Safe.enter (h : Safe s) (t : T) (primary : Bool) : Safe (s.enter t primary) := by
  rw [State.enter]
  split
  · cases s.db_ with
    | none =>
        exact
          { attaching := fun _ _ _ => nofun
            forwarded := forall_phase_update
              (Q := fun _ q => ∀ connection, q = .forwarded connection →
                ∃ db, connection = some db ∧ db ∉ s.closed) h.forwarded nofun }
    | some db => exact h.become nofun nofun
  · exact h

/-- What is handed out is the instance of the manager, unless it was dropped. -/
theorem safe_finish_iff (h : Inv s) (hsafe : Safe s) (t : T) :
    Safe (s.finish t) ↔ ¬(s.phase t = .entered true ∧ s.connection_ = none) := by
  rw [State.finish]
  split
  · next hentered =>
      constructor
      · rintro hsafe' ⟨-, hnone⟩
        obtain ⟨db, hdb, -⟩ := hsafe'.forwarded t s.connection_ (Function.update_self ..)
        cases hnone.symm.trans hdb
      · intro hthere
        obtain ⟨db, hdb⟩ := Option.ne_none_iff_exists'.mp
          (h.created t (by rw [hentered]; trivial))
        have hconnection := (h.connection db hdb).resolve_right fun hnone =>
          hthere ⟨hentered, hnone.1⟩
        refine hsafe.become nofun ?_
        rintro _ ⟨⟩
        exact ⟨db, hconnection, (h.current db hdb).2⟩
  · next db hentered hdb =>
      refine iff_of_true ?_ fun hboth => ?_
      · split
        · exact hsafe.become nofun nofun
        · exact hsafe.become nofun nofun
      · cases hentered.symm.trans hboth.1
  · next hother _ => exact iff_of_true hsafe fun hboth => hother hboth.1

theorem safe_beginReset_iff (hsafe : Safe s) (t : T) :
    Safe (s.beginReset t) ↔ ¬(s.phase t = .idle ∧ s.mutex_ = none ∧
      ∃ u primary, s.phase u = .attaching primary) := by
  rw [State.beginReset]
  split
  · next hbegin =>
      constructor
      · rintro hsafe' ⟨hidle, -, u, primary, hu⟩
        refine hsafe'.attaching u primary ?_ rfl
        refine (Function.update_of_ne ?_ ..).trans hu
        rintro rfl
        cases hidle.symm.trans hu
      · intro hnone
        exact
          { attaching := forall_phase_update
              (Q := fun _ q => ∀ primary, q = .attaching primary → none ≠ none)
              (fun u primary hu => absurd ⟨hbegin.1, hbegin.2, u, primary, hu⟩ hnone) nofun
            forwarded := forall_phase_update
              (Q := fun _ q => ∀ connection, q = .forwarded connection →
                ∃ db, connection = some db ∧ db ∉ s.closed) hsafe.forwarded nofun }
  · next hwaits => exact iff_of_true hsafe fun hclash => hwaits ⟨hclash.1, hclash.2.1⟩

theorem safe_close_iff (hsafe : Safe s) (t : T) :
    Safe (s.close t) ↔ ¬(s.phase t = .resetting ∧ s.create_mutex_ = none ∧
      ∃ u db, s.db_ = some db ∧ s.phase u = .forwarded (some db)) := by
  rw [State.close]
  split
  · next hclose =>
      constructor
      · rintro hsafe' ⟨hresetting, -, u, db, hdb, hu⟩
        have hkept : Function.update s.phase t .reset u = .forwarded (some db) := by
          refine (Function.update_of_ne ?_ ..).trans hu
          rintro rfl
          cases hresetting.symm.trans hu
        obtain ⟨db', hsame, hopen⟩ := hsafe'.forwarded u (some db) hkept
        obtain rfl := Option.some.inj hsame
        exact hopen (List.mem_append_right _ (Option.mem_toList.mpr hdb))
      · intro hnone
        refine
          { attaching := forall_phase_update
              (Q := fun _ q => ∀ primary, q = .attaching primary → s.connection_ ≠ none)
              hsafe.attaching nofun
            forwarded := forall_phase_update
              (Q := fun _ q => ∀ connection, q = .forwarded connection →
                ∃ db, connection = some db ∧ db ∉ s.closed ++ s.db_.toList) ?_ nofun }
        intro u connection hu
        obtain ⟨db, rfl, hopen⟩ := hsafe.forwarded u connection hu
        refine ⟨db, rfl, fun hclosed => ?_⟩
        rcases List.mem_append.mp hclosed with hpast | hcurrent
        · exact hopen hpast
        · exact hnone ⟨hclose.1, hclose.2, u, db, Option.mem_toList.mp hcurrent, hu⟩
  · next hwaits => exact iff_of_true hsafe fun hclash => hwaits ⟨hclash.1, hclash.2.1⟩

/-- A step keeps the instances that are handed out, unless it clashes. -/
theorem safe_step_iff (h : Inv s) (hsafe : Safe s) (action : Action T) :
    Safe (step s action) ↔ ¬Clash s action := by
  cases action with
  | enter t primary => exact iff_of_true (hsafe.enter t primary) id
  | attach t =>
      refine iff_of_true ?_ id
      rw [step]
      split
      · exact hsafe.become nofun nofun
      · exact hsafe
  | finish t => exact safe_finish_iff h hsafe t
  | release t =>
      refine iff_of_true ?_ id
      rw [step, State.release]
      split
      · exact hsafe.become nofun nofun
      · exact hsafe.become nofun nofun
      · exact hsafe.become nofun nofun
      · exact hsafe
  | enterNested t =>
      refine iff_of_true ?_ id
      rw [step, State.enterNested]
      split
      · split
        · exact hsafe.become nofun nofun
        · exact hsafe
      · exact hsafe
  | finishNested t =>
      refine iff_of_true ?_ id
      rw [step, State.finishNested]
      split
      · exact hsafe.become nofun nofun
      · exact hsafe
  | releaseNested t =>
      refine iff_of_true ?_ id
      rw [step, State.releaseNested]
      split
      · exact hsafe.become nofun nofun
      · exact hsafe
  | beginReset t => exact safe_beginReset_iff hsafe t
  | close t => exact safe_close_iff hsafe t
  | endReset t =>
      refine iff_of_true ?_ id
      rw [step, State.endReset]
      split
      · exact hsafe.become nofun nofun
      · exact hsafe

/-- In every interleaving, the instances that are handed out without a lock are there and open
exactly as long as no step clashes. -/
theorem safe_throughout_iff (actions : List (Action T)) :
    Throughout step (fun s action => Safe (step s action)) {} actions ↔
      Throughout step (fun s action => ¬Clash s action) {} actions := by
  have hstart : Safe ({} : State T) := ⟨nofun, nofun⟩
  refine throughout_iff_of_invariant (I := fun s => Inv s ∧ Safe s) ?_ ?_ ⟨inv_initial, hstart⟩
    throughout_true
  · rintro s action ⟨h, hsafe⟩ -
    exact safe_step_iff h hsafe action
  · rintro s action ⟨h, hsafe⟩ - hgood
    exact ⟨h.step action, (safe_step_iff h hsafe action).mpr hgood⟩

end Osquery.Sql.Connections
