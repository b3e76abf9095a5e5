import Osquery.Scheduler.Blacklist
import Osquery.Config.Purge

/-!
# Interrupted queries

The scheduler marks the executing query in the database and clears the mark when
the performance of the query was recorded. A process that starts takes a mark
for a query that killed the process before it, and blacklists the query. The
performance is recorded only if the process table had rows before and after the
execution; otherwise the mark stays, and the next query overwrites it.

## Implementation notes

`Step` cuts the programs of the source at every write and lets the process die
between any two steps; `steps_initializeSchedule` and `steps_launchQuery` say that
it covers the whole programs. The trace records which executions began and ended
and when the process died. Between the marked steps of a query, and between two
queries, any operation may reach the database that spares the two values of the
schedule. Extensions do not restore or save the schedule.
-/

namespace Osquery.Scheduler

open Foundation.AtomicProgram Foundation.JsonText Foundation.Numeral
open Core.BackingStore Core.Rows Config
open DifferentialQueries (Query addNewResults addNewResults_writesWithin queryKeys)
open EventSubscribers (Blacklist kExecutingQuery executing)

/-! ### The programs -/

/-- The constructor of the schedule. -/
def initializeSchedule (now failed_at : UInt64) : Prog DbOp Blacklist := do
  let blacklist ← restoreScheduleBlacklist now
  let failed_query ← readValue kPersistentSettings kExecutingQuery
  if failed_query = "" then return blacklist
  let _ ← setDatabaseValue kPersistentSettings kExecutingQuery ""
  let blacklist := blacklist.insert failed_query (failed_at + 86400)
  saveScheduleBlacklist blacklist
  return blacklist

/-- What the record of the performance leaves in the database. -/
def recordQueryPerformance : Prog DbOp Unit := do
  let _ ← setDatabaseValue kPersistentSettings kExecutingQuery ""
  return ()

/-- The execution of a query. `measured` tells whether both snapshots of the
process table had rows. -/
def monitor (name : String) (sql : Prog DbOp Unit) (measured : Bool) (now : UInt64) :
    Prog DbOp Unit := do
  recordQueryStart name now
  sql
  if measured then recordQueryPerformance else return ()

/-- A launched query. `rows` are missing when the SQL failed, and are stored
unless the query is a snapshot or reads events only. -/
def launchQuery (json : JsonLibrary) (q : Query) (sql : Prog DbOp Unit) (measured : Bool)
    (now : UInt64) (rows : Option QueryData) (stored : Bool) (epoch : UInt64) :
    Prog DbOp Unit := do
  monitor q.name sql measured now
  match rows with
  | none => return ()
  | some rows =>
      if stored then
        let _ ← addNewResults json q rows epoch {} true
        return ()
      else return ()

/-! ### Steps of a daemon -/

inductive Event
  | began (name : String)
  | finished (name : String) (measured : Bool)
  | died
  deriving DecidableEq

/-- Where the process is: not running, in the constructor of the schedule, or at
a step of the scheduler. -/
inductive Phase
  | stopped
  | restored
  | failed (name : String)
  | cleared (name : String)
  | idle
  | marked (name : String)
  | running (name : String)
  | measuring (name : String)
  deriving DecidableEq

/-- The database, the process with its blacklist, and what happened so far. -/
structure Daemon where
  db : Database
  phase : Phase
  blacklist : Blacklist
  trace : List Event

/-- The saved blacklist of a database. -/
def failedQueries (db : Database) : String :=
  (lookup db kPersistentSettings kFailedQueries).getD ""

/-- Operations that spare the mark and the saved blacklist. -/
def Spares : (β : Type) → DbOp β → Prop
  | _, .get _ _ => True
  | _, .scan _ _ _ => True
  | _, .putBatch d data =>
      d = kPersistentSettings → ∀ p ∈ data, p.1 ≠ kExecutingQuery ∧ p.1 ≠ kFailedQueries
  | _, .remove d key => d = kPersistentSettings → key ≠ kExecutingQuery ∧ key ≠ kFailedQueries
  | _, .removeRange d _ _ => d ≠ kPersistentSettings

def setMark (name : String) (db : Database) : Database :=
  Ephemeral.setValue db kPersistentSettings kExecutingQuery name

def save (blacklist : Blacklist) (db : Database) : Database :=
  Ephemeral.setValue db kPersistentSettings kFailedQueries (blacklistText blacklist.toList)

/-- One step of the process, or its death. -/
inductive Step : Daemon → Daemon → Prop
  | restore (s : Daemon) (now : UInt64) (h : s.phase = .stopped) :
      Step s { s with
        phase := .restored, blacklist := restoreBlacklist now (failedQueries s.db) }
  | noFailure (s : Daemon) (h : s.phase = .restored) (hmark : executing s.db = "") :
      Step s { s with phase := .idle }
  | failure (s : Daemon) (h : s.phase = .restored) (hmark : executing s.db ≠ "") :
      Step s { s with phase := .failed (executing s.db) }
  | clearMark (s : Daemon) (name : String) (h : s.phase = .failed name) :
      Step s { s with phase := .cleared name, db := setMark "" s.db }
  | addFailed (s : Daemon) (name : String) (h : s.phase = .cleared name) (now : UInt64) :
      Step s { s with
        phase := .idle
        blacklist := s.blacklist.insert name (now + 86400)
        db := save (s.blacklist.insert name (now + 86400)) s.db }
  | markExecuting (s : Daemon) (name : String) (h : s.phase = .idle) :
      Step s { s with
        phase := .marked name, db := setMark name s.db, trace := s.trace ++ [.began name] }
  | storeTime (s : Daemon) (name : String) (h : s.phase = .marked name) (now : UInt64) :
      Step s { s with
        phase := .running name
        db := Ephemeral.setValue s.db kPersistentSettings (timestampKey name)
          (toText now.toNat) }
  | execute (s : Daemon) (name : String) (h : s.phase = .running name) {β : Type} (o : DbOp β)
      (ho : Spares β o) :
      Step s { s with db := (o.exec s.db).2 }
  | endSql (s : Daemon) (name : String) (h : s.phase = .running name) :
      Step s { s with phase := .measuring name }
  | recordPerformance (s : Daemon) (name : String) (h : s.phase = .measuring name) :
      Step s { s with
        phase := .idle, db := setMark "" s.db, trace := s.trace ++ [.finished name true] }
  | skipPerformance (s : Daemon) (name : String) (h : s.phase = .measuring name) :
      Step s { s with phase := .idle, trace := s.trace ++ [.finished name false] }
  | work (s : Daemon) (h : s.phase = .idle) {β : Type} (o : DbOp β) (ho : Spares β o) :
      Step s { s with db := (o.exec s.db).2 }
  | unblacklist (s : Daemon) (h : s.phase = .idle) (name : String) (hname : name ∈ s.blacklist) :
      Step s { s with
        blacklist := s.blacklist.erase name, db := save (s.blacklist.erase name) s.db }
  | die (s : Daemon) (h : s.phase ≠ .stopped) :
      Step s { s with phase := .stopped, blacklist := ∅, trace := s.trace ++ [.died] }

/-- An installation on which nothing has run. -/
structure Fresh (s : Daemon) : Prop where
  mark : executing s.db = ""
  saved : failedQueries s.db = ""
  stopped : s.phase = .stopped
  blacklist : s.blacklist = ∅
  trace : s.trace = []

/-! ### The property -/

/-- The process died while it executed the query. -/
def Interrupted (trace : List Event) (name : String) : Prop :=
  [Event.began name, Event.died] <:+: trace

instance (trace : List Event) (name : String) : Decidable (Interrupted trace name) :=
  inferInstanceAs (Decidable ([Event.began name, Event.died] <:+: trace))

/-- The process died while it executed the query, and no query began since. -/
def InterruptedLast (trace : List Event) (name : String) : Prop :=
  ∃ before after, trace = before ++ [Event.began name, Event.died] ++ after ∧
    ∀ e ∈ after, e = Event.died

/-- A query that the start-up adds was the one that the process died in, and every
query of the blacklist was interrupted. -/
def OnlyInterrupted (s : Daemon) : Prop :=
  (∀ name, s.phase = .failed name ∨ s.phase = .cleared name → InterruptedLast s.trace name) ∧
    ∀ name ∈ s.blacklist, Interrupted s.trace name

/-- The query that is being executed. -/
def Phase.query : Phase → Option String
  | .marked name => some name
  | .running name => some name
  | .measuring name => some name
  | _ => none

/-- The process does not die between an execution without rows of the process
table and the next one, nor in a query whose name is not saved as it is. -/
structure DeathPermitted (s : Daemon) : Prop where
  measured : ∀ name, s.phase = .idle → s.trace.getLast? = some (.finished name false) → name = ""
  clean : ∀ name, s.phase.query = some name → name ≠ "" → Clean name

/-- Runs whose deaths are all permitted. -/
inductive Reached : Daemon → Prop
  | fresh (s : Daemon) (h : Fresh s) : Reached s
  | step {s s' : Daemon} (h : Reached s) (hstep : Step s s')
      (hdeath : s'.phase = .stopped → DeathPermitted s) : Reached s'

/-! ### The two values of the schedule -/

section Values

variable (db : Database)

@[simp] theorem executing_setMark (name : String) : executing (setMark name db) = name := by
  simp [executing, setMark]

@[simp] theorem failedQueries_setMark (name : String) :
    failedQueries (setMark name db) = failedQueries db := by
  simp [failedQueries, setMark, kExecutingQuery, kFailedQueries]

@[simp] theorem executing_save (blacklist : Blacklist) :
    executing (save blacklist db) = executing db := by
  simp [executing, save, kExecutingQuery, kFailedQueries]

@[simp] theorem failedQueries_save (blacklist : Blacklist) :
    failedQueries (save blacklist db) = blacklistText blacklist.toList := by
  simp [failedQueries, save]

theorem failed_ne_timestampKey (name : String) : kFailedQueries ≠ timestampKey name := by
  intro h
  have hhead := congrArg (fun s => s.toList.head?) h
  simp [kFailedQueries, timestampKey] at hhead

theorem executing_storeTime (name text : String) :
    executing (Ephemeral.setValue db kPersistentSettings (timestampKey name) text) =
      executing db := by
  rw [executing, lookup_setValue, if_neg fun h => executing_ne_timestampKey name h.2.symm]
  rfl

theorem failedQueries_storeTime (name text : String) :
    failedQueries (Ephemeral.setValue db kPersistentSettings (timestampKey name) text) =
      failedQueries db := by
  rw [failedQueries, lookup_setValue, if_neg fun h => failed_ne_timestampKey name h.2.symm]
  rfl

theorem lookup_exec_of_spares {β : Type} {o : DbOp β} (ho : Spares β o) {key : String}
    (hkey : key = kExecutingQuery ∨ key = kFailedQueries) :
    lookup (o.exec db).2 kPersistentSettings key = lookup db kPersistentSettings key := by
  cases o with
  | get d k => rfl
  | scan d pre max => rfl
  | putBatch d data =>
      apply lookup_putBatch_of_forall_ne
      rintro hd p hp rfl
      rcases hkey with hkey | hkey
      · exact (ho hd p hp).1 hkey
      · exact (ho hd p hp).2 hkey
  | remove d k =>
      refine (lookup_remove db d k _ key).trans (if_neg ?_)
      rintro ⟨hd, rfl⟩
      rcases hkey with hkey | hkey
      · exact (ho hd).1 hkey
      · exact (ho hd).2 hkey
  | removeRange d low high =>
      refine (lookup_removeRange db d low high _ key).trans (if_neg ?_)
      exact fun h => ho h.1

theorem executing_exec {β : Type} {o : DbOp β} (ho : Spares β o) :
    executing (o.exec db).2 = executing db :=
  congrArg (Option.getD · "") (lookup_exec_of_spares db ho (Or.inl rfl))

theorem failedQueries_exec {β : Type} {o : DbOp β} (ho : Spares β o) :
    failedQueries (o.exec db).2 = failedQueries db :=
  congrArg (Option.getD · "") (lookup_exec_of_spares db ho (Or.inr rfl))

end Values

/-! ### The steps cover the programs -/

section Programs

open Relation (ReflTransGen)

/-- The operations of a program between the marked steps of a query. -/
theorem steps_execute {name : String} {sql : Prog DbOp Unit} (hsql : sql.Only Spares)
    (s : Daemon) (h : s.phase = .running name) :
    ReflTransGen Step s { s with db := (sql.run s.db).2 } := by
  induction hsql generalizing s with
  | ret a => exact ReflTransGen.refl
  | op ho _ ih =>
      exact (ReflTransGen.single (Step.execute s name h _ ho)).trans (ih _ _ h)

/-- The whole monitor is a sequence of steps. -/
theorem steps_monitor (name : String) {sql : Prog DbOp Unit} (hsql : sql.Only Spares)
    (measured : Bool) (now : UInt64) (s : Daemon) (h : s.phase = .idle) :
    ReflTransGen Step s { s with
      db := ((monitor name sql measured now).run s.db).2
      trace := s.trace ++ [.began name, .finished name measured] } := by
  obtain ⟨db, phase, blacklist, trace⟩ := s
  obtain rfl : phase = .idle := h
  have hstart := (ReflTransGen.single (Step.markExecuting ⟨db, .idle, blacklist, trace⟩ name
    rfl)).tail (Step.storeTime _ name rfl now)
  have hsteps := (hstart.trans (steps_execute hsql _ rfl)).tail (Step.endSql _ name rfl)
  have htrace : trace ++ [Event.began name, .finished name measured] =
      (trace ++ [.began name]) ++ [.finished name measured] := by simp
  simp only [htrace, monitor, Prog.run_bind]
  cases measured with
  | true => exact hsteps.tail (Step.recordPerformance _ name rfl)
  | false => exact hsteps.tail (Step.skipPerformance _ name rfl)

/-- Operations of an idle process. -/
theorem steps_work {program : Prog DbOp Unit} (hprogram : program.Only Spares) (s : Daemon)
    (h : s.phase = .idle) : ReflTransGen Step s { s with db := (program.run s.db).2 } := by
  induction hprogram generalizing s with
  | ret a => exact ReflTransGen.refl
  | op ho _ ih => exact (ReflTransGen.single (Step.work s h _ ho)).trans (ih _ _ h)

/-- Writes to the queries domain spare the values of the schedule. -/
theorem spares_of_writesWithin {α : Type} {keys : List String} {program : Prog DbOp α}
    (h : program.Only (DbOp.WritesWithin kQueries keys)) : program.Only Spares := by
  have hdomain : kQueries ≠ kPersistentSettings := by decide
  induction h with
  | ret a => exact Prog.Only.ret a
  | op ho _ ih =>
      refine Prog.Only.op ?_ ih
      rename_i o _ _
      cases o with
      | get d key => trivial
      | scan d pre max => trivial
      | putBatch d data => exact fun hd => absurd (ho.1.symm.trans hd) hdomain
      | remove d key => exact fun hd => absurd (ho.1.symm.trans hd) hdomain
      | removeRange d low high => exact ho.elim

/-- The whole launch is a sequence of steps, whatever the outcome. -/
theorem steps_launchQuery (json : JsonLibrary) (q : Query) {sql : Prog DbOp Unit}
    (hsql : sql.Only Spares) (measured : Bool) (now : UInt64) (rows : Option QueryData)
    (stored : Bool) (epoch : UInt64) (s : Daemon) (h : s.phase = .idle) :
    ReflTransGen Step s { s with
      db := ((launchQuery json q sql measured now rows stored epoch).run s.db).2
      trace := s.trace ++ [.began q.name, .finished q.name measured] } := by
  have hmonitor := steps_monitor q.name hsql measured now s h
  cases rows with
  | none =>
      rw [launchQuery, Prog.run_bind]
      exact hmonitor
  | some rows =>
      rw [launchQuery, Prog.run_bind]
      cases stored with
      | false => exact hmonitor
      | true =>
          have hstore := spares_of_writesWithin
            (addNewResults_writesWithin json q rows epoch {} true)
          exact hmonitor.trans
            (steps_work (Prog.only_bind hstore fun _ => Prog.only_pure _) _ h)

/-- The whole constructor is a sequence of steps. -/
theorem steps_initializeSchedule (now failed_at : UInt64) (s : Daemon) (h : s.phase = .stopped) :
    ReflTransGen Step s { s with
      phase := .idle
      blacklist := ((initializeSchedule now failed_at).run s.db).1
      db := ((initializeSchedule now failed_at).run s.db).2 } := by
  obtain ⟨db, phase, blacklist, trace⟩ := s
  obtain rfl : phase = .stopped := h
  have hread : ∀ key, (readValue kPersistentSettings key : Prog DbOp String).run db =
      ((lookup db kPersistentSettings key).getD "", db) := fun key =>
    run_readValue_of_ne_empty (by decide) key db
  have hclear : (setDatabaseValue kPersistentSettings kExecutingQuery "" : Prog DbOp _).run db =
      (.ok (), setMark "" db) := rfl
  have hsave : ∀ (blacklist : Blacklist) (db : Database),
      (saveScheduleBlacklist blacklist).run db = ((), save blacklist db) := fun _ _ => rfl
  have hrestore := ReflTransGen.single (Step.restore ⟨db, .stopped, blacklist, trace⟩ now rfl)
  by_cases hmark : executing db = ""
  · have hrun : (initializeSchedule now failed_at).run db =
        (restoreBlacklist now (failedQueries db), db) := by
      rw [executing] at hmark
      simp [initializeSchedule, restoreScheduleBlacklist, hread, hmark, failedQueries]
    rw [hrun]
    exact hrestore.tail (Step.noFailure _ rfl hmark)
  · have hrun : (initializeSchedule now failed_at).run db =
        ((restoreBlacklist now (failedQueries db)).insert (executing db) (failed_at + 86400),
          save ((restoreBlacklist now (failedQueries db)).insert (executing db)
            (failed_at + 86400)) (setMark "" db)) := by
      have hne := hmark
      rw [executing] at hne
      simp only [initializeSchedule, restoreScheduleBlacklist, Prog.run_bind, hread,
        Prog.run_pure, hne, if_false, hclear, hsave]
      rfl
    rw [hrun]
    dsimp only at hrestore
    generalize restoreBlacklist now (failedQueries db) = restored at hrestore ⊢
    have hcleared := (hrestore.tail (Step.failure _ rfl hmark)).tail
      (Step.clearMark _ (executing db) rfl)
    exact hcleared.tail (Step.addFailed _ (executing db) rfl failed_at)

end Programs

/-! ### The invariant -/

theorem Interrupted.append {trace : List Event} {name : String} (h : Interrupted trace name)
    (events : List Event) : Interrupted (trace ++ events) name :=
  h.trans (List.prefix_append trace events).isInfix

theorem InterruptedLast.interrupted {trace : List Event} {name : String}
    (h : InterruptedLast trace name) : Interrupted trace name := by
  obtain ⟨before, after, heq, -⟩ := h
  exact ⟨before, after, heq.symm⟩

theorem InterruptedLast.died {trace : List Event} {name : String}
    (h : InterruptedLast trace name) : InterruptedLast (trace ++ [.died]) name := by
  obtain ⟨before, after, rfl, hafter⟩ := h
  refine ⟨before, after ++ [.died], by simp, ?_⟩
  intro e he
  rcases List.mem_append.mp he with he | he
  · exact hafter e he
  · exact List.mem_singleton.mp he

/-- A death in a query that began last interrupts it. -/
theorem interruptedLast_of_began {trace : List Event} {name : String}
    (h : trace.getLast? = some (.began name)) : InterruptedLast (trace ++ [.died]) name := by
  obtain ⟨before, rfl⟩ := List.getLast?_eq_some_iff.mp h
  exact ⟨before, [], by simp, fun e he => absurd he List.not_mem_nil⟩

/-- What the mark in the database means in a phase. -/
def MarkMeans (db : Database) (trace : List Event) : Phase → Prop
  | .stopped => executing db ≠ "" →
      Clean (executing db) ∧ InterruptedLast trace (executing db)
  | .restored => executing db ≠ "" →
      Clean (executing db) ∧ InterruptedLast trace (executing db)
  | .failed name => executing db = name ∧ Clean name ∧ InterruptedLast trace name
  | .cleared name => executing db = "" ∧ Clean name ∧ InterruptedLast trace name
  | .idle => executing db ≠ "" → trace.getLast? = some (.finished (executing db) false)
  | .marked name => executing db = name ∧ trace.getLast? = some (.began name)
  | .running name => executing db = name ∧ trace.getLast? = some (.began name)
  | .measuring name => executing db = name ∧ trace.getLast? = some (.began name)

/-- Every name of a blacklist was interrupted, and is saved as it is. -/
def AllInterrupted (trace : List Event) (blacklist : Blacklist) : Prop :=
  ∀ name ∈ blacklist, Clean name ∧ Interrupted trace name

theorem AllInterrupted.append {trace : List Event} {blacklist : Blacklist}
    (h : AllInterrupted trace blacklist) (events : List Event) :
    AllInterrupted (trace ++ events) blacklist :=
  fun name hname => ⟨(h name hname).1, (h name hname).2.append events⟩

theorem AllInterrupted.empty (trace : List Event) : AllInterrupted trace ∅ :=
  fun _ hname => absurd hname Std.ExtTreeMap.not_mem_empty

theorem AllInterrupted.erase {trace : List Event} {blacklist : Blacklist}
    (h : AllInterrupted trace blacklist) (name : String) :
    AllInterrupted trace (blacklist.erase name) :=
  fun k hk => h k (Std.ExtTreeMap.mem_of_mem_erase hk)

theorem AllInterrupted.insert {trace : List Event} {blacklist : Blacklist}
    (h : AllInterrupted trace blacklist) {name : String} (hclean : Clean name)
    (hname : Interrupted trace name) (expire : UInt64) :
    AllInterrupted trace (blacklist.insert name expire) := by
  intro k hk
  rw [Std.ExtTreeMap.mem_insert, Std.compare_eq_iff_eq] at hk
  rcases hk with rfl | hk
  · exact ⟨hclean, hname⟩
  · exact h k hk

/-- The invariant of the permitted runs. -/
structure Marked (s : Daemon) : Prop where
  saved : ∃ saved : Blacklist, failedQueries s.db = blacklistText saved.toList ∧
    AllInterrupted s.trace saved
  blacklist : AllInterrupted s.trace s.blacklist
  mark : MarkMeans s.db s.trace s.phase

theorem Fresh.marked {s : Daemon} (h : Fresh s) : Marked s := by
  refine ⟨⟨∅, ?_, AllInterrupted.empty _⟩, ?_, ?_⟩
  · rw [h.saved]
    rfl
  · rw [h.blacklist]
    exact AllInterrupted.empty _
  · rw [h.stopped]
    exact fun hmark => absurd h.mark hmark

/-- A permitted death leaves the mark of an interrupted query, or none. -/
theorem Marked.die {s : Daemon} (h : Marked s) (hrunning : s.phase ≠ .stopped)
    (hdeath : DeathPermitted s) :
    MarkMeans s.db (s.trace ++ [.died]) .stopped := by
  have hquery : ∀ name, s.phase.query = some name →
      executing s.db = name ∧ s.trace.getLast? = some (.began name) →
        MarkMeans s.db (s.trace ++ [.died]) .stopped := by
    rintro name hphase ⟨hmark, hlast⟩ hne
    rw [hmark] at hne ⊢
    exact ⟨hdeath.clean name hphase hne, interruptedLast_of_began hlast⟩
  have hmeans := h.mark
  cases hphase : s.phase <;> rw [hphase] at hmeans
  case stopped => exact absurd hphase hrunning
  case restored => exact fun hne => ⟨(hmeans hne).1, (hmeans hne).2.died⟩
  case failed name =>
    obtain ⟨hmark, hclean, hlast⟩ := hmeans
    intro hne
    rw [hmark]
    exact ⟨hclean, hlast.died⟩
  case cleared name => exact fun hne => absurd hmeans.1 hne
  case idle => exact fun hne => absurd (hdeath.measured _ hphase (hmeans hne)) hne
  case marked name => exact hquery name (by rw [hphase]; rfl) hmeans
  case running name => exact hquery name (by rw [hphase]; rfl) hmeans
  case measuring name => exact hquery name (by rw [hphase]; rfl) hmeans

/-- Every step keeps the invariant. -/
theorem Marked.step {s s' : Daemon} (h : Marked s) (hstep : Step s s')
    (hdeath : s'.phase = .stopped → DeathPermitted s) : Marked s' := by
  obtain ⟨⟨saved, hsaved, hall⟩, hblacklist, hmark⟩ := h
  cases hstep with
  | restore now hphase =>
      rw [hphase] at hmark
      refine ⟨⟨saved, hsaved, hall⟩, ?_, hmark⟩
      intro name hname
      apply hall
      apply mem_restoreBlacklist fun k hk => (hall k hk).1
      rw [← hsaved]
      exact hname
  | noFailure hphase hnone =>
      exact ⟨⟨saved, hsaved, hall⟩, hblacklist, fun hne => absurd hnone hne⟩
  | failure hphase hsome =>
      rw [hphase] at hmark
      exact ⟨⟨saved, hsaved, hall⟩, hblacklist, rfl, hmark hsome⟩
  | clearMark name hphase =>
      rw [hphase] at hmark
      refine ⟨⟨saved, ?_, hall⟩, hblacklist, executing_setMark _ _, hmark.2⟩
      exact (failedQueries_setMark s.db "").trans hsaved
  | addFailed name hphase now =>
      rw [hphase] at hmark
      have hinsert := hblacklist.insert hmark.2.1 hmark.2.2.interrupted (now + 86400)
      refine ⟨⟨_, failedQueries_save s.db _, hinsert⟩, hinsert, ?_⟩
      intro hne
      exact absurd ((executing_save s.db _).trans hmark.1) hne
  | markExecuting name hphase =>
      refine ⟨⟨saved, ?_, hall.append _⟩, hblacklist.append _, executing_setMark _ _,
        List.getLast?_concat⟩
      exact (failedQueries_setMark s.db name).trans hsaved
  | storeTime name hphase now =>
      rw [hphase] at hmark
      refine ⟨⟨saved, ?_, hall⟩, hblacklist, ?_, hmark.2⟩
      · exact (failedQueries_storeTime s.db name _).trans hsaved
      · exact (executing_storeTime s.db name _).trans hmark.1
  | execute name hphase o ho =>
      rw [hphase] at hmark
      refine ⟨⟨saved, (failedQueries_exec s.db ho).trans hsaved, hall⟩, hblacklist, ?_⟩
      change MarkMeans _ s.trace s.phase
      rw [hphase]
      exact ⟨(executing_exec s.db ho).trans hmark.1, hmark.2⟩
  | endSql name hphase =>
      rw [hphase] at hmark
      exact ⟨⟨saved, hsaved, hall⟩, hblacklist, hmark⟩
  | recordPerformance name hphase =>
      refine ⟨⟨saved, ?_, hall.append _⟩, hblacklist.append _, ?_⟩
      · exact (failedQueries_setMark s.db "").trans hsaved
      · exact fun hne => absurd (executing_setMark s.db "") hne
  | skipPerformance name hphase =>
      rw [hphase] at hmark
      refine ⟨⟨saved, hsaved, hall.append _⟩, hblacklist.append _, ?_⟩
      intro hne
      change (s.trace ++ [Event.finished name false]).getLast? = _
      rw [List.getLast?_concat, hmark.1]
  | work hphase o ho =>
      rw [hphase] at hmark
      refine ⟨⟨saved, (failedQueries_exec s.db ho).trans hsaved, hall⟩, hblacklist, ?_⟩
      change MarkMeans _ s.trace s.phase
      rw [hphase]
      intro hne
      rw [executing_exec s.db ho] at hne ⊢
      exact hmark hne
  | unblacklist hphase name hname =>
      rw [hphase] at hmark
      refine ⟨⟨_, failedQueries_save s.db _, hblacklist.erase name⟩, hblacklist.erase name, ?_⟩
      change MarkMeans _ s.trace s.phase
      rw [hphase]
      intro hne
      rw [executing_save] at hne ⊢
      exact hmark hne
  | die hphase =>
      refine ⟨⟨saved, hsaved, hall.append _⟩, AllInterrupted.empty _, ?_⟩
      exact Marked.die ⟨⟨saved, hsaved, hall⟩, hblacklist, hmark⟩ hphase (hdeath rfl)

theorem Reached.marked {s : Daemon} (h : Reached s) : Marked s := by
  induction h with
  | fresh s h => exact h.marked
  | step h hstep hdeath ih => exact ih.step hstep hdeath

/-- Only interrupted queries are blacklisted. -/
theorem only_interrupted (s : Daemon) (h : Reached s) : OnlyInterrupted s := by
  obtain ⟨-, hblacklist, hmark⟩ := h.marked
  refine ⟨?_, fun name hname => (hblacklist name hname).2⟩
  rintro name (hphase | hphase)
  · rw [hphase] at hmark
    exact hmark.2.2
  · rw [hphase] at hmark
    exact hmark.2.2

/-! ### Two restarts -/

/-- An installation with an empty database. -/
def freshDaemon : Daemon := ⟨∅, .stopped, ∅, []⟩

theorem freshDaemon_fresh : Fresh freshDaemon := by
  constructor
  · decide +kernel
  · decide +kernel
  · rfl
  · rfl
  · rfl

/-- The process started, died in the query `q`, and starts again. -/
def restartedInQuery : Daemon :=
  ⟨setMark "q" ∅, .failed (executing (setMark "q" ∅)),
    restoreBlacklist 1600000100 (failedQueries (setMark "q" ∅)), [.began "q", .died]⟩

/-- The query that the start-up finds marked is the interrupted one. -/
theorem only_interrupted_in_query : OnlyInterrupted restartedInQuery := by
  apply only_interrupted
  have hclean : Clean "q" := ⟨by decide, by decide, by decide⟩
  have hrestored := (Reached.fresh freshDaemon freshDaemon_fresh).step
    (Step.restore _ 1600000000 rfl) (fun h => Phase.noConfusion h)
  have hidle := hrestored.step (Step.noFailure _ rfl freshDaemon_fresh.mark)
    (fun h => Phase.noConfusion h)
  have hmarked := hidle.step (Step.markExecuting _ "q" rfl) (fun h => Phase.noConfusion h)
  have hdied := hmarked.step (Step.die _ fun h => Phase.noConfusion h) fun _ =>
    { measured := fun name h => Phase.noConfusion h
      clean := fun name h _ => Option.some.inj h ▸ hclean }
  have hagain := hdied.step (Step.restore _ 1600000100 rfl) (fun h => Phase.noConfusion h)
  have hmark : executing (setMark "q" ∅) ≠ "" := by
    rw [executing_setMark]
    decide
  exact hagain.step (Step.failure _ rfl hmark) (fun h => Phase.noConfusion h)

/-- The database after the query `q` ended without rows of the process table. -/
def finishedDatabase : Database :=
  ((monitor "q" (return ()) false 1600000010).run
    ((initializeSchedule 1600000000 1600000000).run ∅).2).2

/-- The process died after the query had ended, and started again. -/
def restartedAfterQuery : Daemon :=
  ⟨((initializeSchedule 1600000100 1600000100).run finishedDatabase).2, .idle,
    ((initializeSchedule 1600000100 1600000100).run finishedDatabase).1,
    [.began "q", .finished "q" false, .died]⟩

/-- A query that ended is blacklisted. -/
theorem finished_query_blacklisted :
    Fresh freshDaemon ∧ Relation.ReflTransGen Step freshDaemon restartedAfterQuery ∧
      ¬OnlyInterrupted restartedAfterQuery := by
  refine ⟨freshDaemon_fresh, ?_, ?_⟩
  · have hstart := steps_initializeSchedule 1600000000 1600000000 freshDaemon rfl
    have hquery := hstart.trans
      (steps_monitor "q" (Prog.only_pure ()) false 1600000010 _ rfl)
    have hdied := hquery.tail (Step.die _ fun h => Phase.noConfusion h)
    exact hdied.trans (steps_initializeSchedule 1600000100 1600000100 _ rfl)
  · intro h
    have hmem : "q" ∈ restartedAfterQuery.blacklist := by decide +kernel
    exact absurd (h.2 "q" hmem) (by decide)

end Osquery.Scheduler
