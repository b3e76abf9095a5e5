import Osquery.Foundation.Numeral

/-!
# Migration of the database

A database of another version than the current one is migrated in steps, each from one path to
a random one. When the chain has reached the current version, the original database is moved
away and the migrated one is moved to its place.

## Implementation notes

The file system is a map from paths to databases, and a rename of a database that exists
succeeds. A database has its column families, with values that are read or not, and may not
open. A step is given what is at its source path; it answers with the new version or an error,
and with what it leaves at its destination, if anything. Random paths are inputs, and opening a
path without a database is an invalid argument, as opening another one may be. Log lines are left
out.
-/

namespace Osquery.Database

open Foundation.Numeral

inductive RocksdbMigrationError
  | invalidArgument
  | failToOpen
  | failToGetVersion
  | noMigrationFromCurrentVersion
  | migrationLogicError
  | failToOpenSrcDatabase
  | failMoveDatabase
  deriving DecidableEq

structure MigrationError where
  code : RocksdbMigrationError
  message : String

/-- A status with which a database fails to open, and whether it is that of an invalid argument. -/
structure OpenFailure where
  isInvalidArgument : Bool
  text : String

/-- A database: the status with which it fails to open, if it does, and its column families. -/
structure StoredDatabase where
  failure : Option OpenFailure := none
  handles : Std.ExtTreeMap String (Std.ExtTreeMap String (Except String String))

abbrev Disk := Std.ExtTreeMap String StoredDatabase

/-- A step from a path, with what is there, to another path. -/
abbrev MigrationStep :=
  String → String → Option StoredDatabase → Except MigrationError ℤ × Option StoredDatabase

def kDatabaseSchemaVersionCurrent : ℤ := 3

structure RocksdbMigration where
  source_path_ : String
  migration_map_ : ℤ → Option MigrationStep
  OSQUERY_HOME : String
  random_generator : ℕ → String

def OpenFailure.error (status : OpenFailure) : MigrationError where
  code := if status.isInvalidArgument then .invalidArgument else .failToOpen
  message := status.text

/-- The first value is that of the new version, the second one the fallback. -/
def StoredDatabase.version_str (db : StoredDatabase)
    (configurations : Std.ExtTreeMap String (Except String String)) : Except String String :=
  match configurations["database_schema_version"]? with
  | some value => value
  | none =>
      match (db.handles["default"]?).bind fun family => family["results_version"]? with
      | some value => value
      | none => .error "NotFound: "

def StoredDatabase.getVersion (db : StoredDatabase) : Except MigrationError ℤ :=
  match db.handles["configurations"]? with
  | none => .error ⟨.failToGetVersion, "Verion data is not found"⟩
  | some configurations =>
      match db.version_str configurations with
      | .error status => .error ⟨.failToGetVersion, status⟩
      | .ok version_str =>
          match stoi version_str with
          | .ok version => .ok version
          | .error _ => .error ⟨.failToGetVersion, ""⟩

/-- What a step leaves at its destination. -/
def Disk.leave (disk : Disk) (dst_path : String) : Option StoredDatabase → Disk
  | none => disk
  | some db => disk.insert dst_path db

namespace RocksdbMigration

variable (m : RocksdbMigration)

def randomOutputPath (number : ℕ) : String :=
  m.OSQUERY_HOME ++ "/migration/" ++ m.random_generator number

def openDatabase (path : String) (disk : Disk) : Except MigrationError StoredDatabase :=
  match disk[path]? with
  | none => .error ⟨.invalidArgument, "Invalid argument: "⟩
  | some db =>
      match db.failure with
      | none => .ok db
      | some status => .error status.error

/-- A rename that succeeds is an error, and one that fails is a success. -/
def moveDb (src_path dst_path : String) (disk : Disk) : Except MigrationError Unit × Disk :=
  match disk[dst_path]? with
  | some _ =>
      (.error ⟨.failMoveDatabase, "Database at dst path already exists or path is not " ++
        "accessible. Path: " ++ dst_path ++ "Error: 0 Success"⟩, disk)
  | none =>
      match disk[src_path]? with
      | some db =>
          (.error ⟨.failMoveDatabase, "Move failed: 0 Success"⟩,
            (disk.erase src_path).insert dst_path db)
      | none => (.ok (), disk)

/-- The steps from a version to the current one, with the path that holds the last database and
the number of random paths that were used. -/
def migrateChain (version : ℤ) (src_path : String) (used : ℕ) (drop_src_data : Bool)
    (disk : Disk) : Except MigrationError (String × ℕ) × Disk :=
  if _h : version < kDatabaseSchemaVersionCurrent then
    match m.migration_map_ version with
    | none =>
        (.error ⟨.noMigrationFromCurrentVersion,
          "No migration logic from version: " ++ toString version⟩, disk)
    | some step =>
        let dst_path := m.randomOutputPath used
        let migration_result := step src_path dst_path disk[src_path]?
        let disk := disk.leave dst_path migration_result.2
        match migration_result.1 with
        | .error e => (.error e, disk)
        | .ok new_version =>
            if hnew : new_version ≤ version then
              (.error ⟨.migrationLogicError, "New version(" ++ toString version ++
                ") is lower or same as old(" ++ toString new_version ++ ")"⟩, disk)
            else
              let disk := if drop_src_data then disk.erase src_path else disk
              migrateChain new_version dst_path (used + 1) true disk
  else (.ok (src_path, used), disk)
  termination_by (kDatabaseSchemaVersionCurrent - version).toNat
  decreasing_by omega

def migrateFromVersion (original_version : ℤ) (disk : Disk) :
    Except MigrationError Unit × Disk :=
  let chain := m.migrateChain original_version m.source_path_ 0 false disk
  match chain.1 with
  | .error e => (.error e, chain.2)
  | .ok (new_src, used) =>
      let temp_store := m.randomOutputPath (used + 1)
      let move := moveDb m.source_path_ temp_store chain.2
      match move.1 with
      | .error e => (.error e, move.2)
      | .ok () =>
          let move := moveDb new_src m.source_path_ move.2
          match move.1 with
          | .error e => (.error e, move.2)
          | .ok () => (.ok (), move.2.erase temp_store)

/-- What the migration answers is not looked at. -/
def migrateIfNeeded (disk : Disk) : Except MigrationError Unit × Disk :=
  match openDatabase m.source_path_ disk with
  | .ok db =>
      match db.getVersion with
      | .ok version =>
          if version ≠ kDatabaseSchemaVersionCurrent then
            (.ok (), (m.migrateFromVersion version disk).2)
          else (.ok (), disk)
      | .error e => (.error e, disk)
  | .error e => if e.code = .invalidArgument then (.ok (), disk) else (.error e, disk)

/-! ### What a migration promises -/

/-- The database is what the whole chain makes of the original one. -/
def Produces (disk : Disk) (original db : StoredDatabase) : Prop :=
  ∃ version path used, original.getVersion = .ok version ∧
    (m.migrateChain version m.source_path_ 0 false disk).1 = .ok (path, used) ∧
    (m.migrateChain version m.source_path_ 0 false disk).2[path]? = some db ∧
    db.getVersion = .ok kDatabaseSchemaVersionCurrent

/-- A database is not lost, and success is reported only when it has the current version. -/
structure Preserved (disk disk' : Disk) (result : Except MigrationError Unit) : Prop where
  kept : ∀ db, disk[m.source_path_]? = some db →
    ∃ db', disk'[m.source_path_]? = some db' ∧ (db' = db ∨ m.Produces disk db db')
  current : result = .ok () → disk[m.source_path_]? = none ∨
    ∃ db, disk'[m.source_path_]? = some db ∧ db.getVersion = .ok kDatabaseSchemaVersionCurrent

/-- A database at the source path has the current version if its version can be read, or if it
fails to open as for an invalid argument. -/
structure UpToDate (disk : Disk) : Prop where
  opened : ∀ db, disk[m.source_path_]? = some db → db.failure = none →
    ∀ version, db.getVersion = .ok version → version = kDatabaseSchemaVersionCurrent
  refused : ∀ db status, disk[m.source_path_]? = some db → db.failure = some status →
    status.isInvalidArgument = true → db.getVersion = .ok kDatabaseSchemaVersionCurrent

/-! ### What becomes of the source path -/

theorem getElem?_leave_of_ne (disk : Disk) {path dst_path : String} (h : path ≠ dst_path)
    (db : Option StoredDatabase) : (disk.leave dst_path db)[path]? = disk[path]? := by
  cases db with
  | none => rfl
  | some db =>
      rw [Disk.leave, Std.ExtTreeMap.getElem?_insert, if_neg]
      rw [compare_eq_iff_eq]
      exact h.symm

/-- The steps leave the source path alone. -/
theorem getElem?_migrateChain (hfresh : ∀ number, m.randomOutputPath number ≠ m.source_path_)
    (version : ℤ) (src_path : String) (used : ℕ) (drop_src_data : Bool) (disk : Disk)
    (hsrc : drop_src_data = true → src_path ≠ m.source_path_) :
    (m.migrateChain version src_path used drop_src_data disk).2[m.source_path_]? =
      disk[m.source_path_]? := by
  fun_induction migrateChain m version src_path used drop_src_data disk with
  | case1 => rfl
  | case2 =>
      apply getElem?_leave_of_ne
      exact (hfresh _).symm
  | case3 =>
      apply getElem?_leave_of_ne
      exact (hfresh _).symm
  | case4 version src_path used drop_src_data disk _ step _ dst_path result left new_version _ _
      dropped ih =>
      have hdst : m.source_path_ ≠ dst_path := (hfresh used).symm
      have hleft : left[m.source_path_]? = disk[m.source_path_]? :=
        getElem?_leave_of_ne disk hdst result.2
      rw [ih fun _ => hdst.symm, ← hleft]
      simp only [dropped]
      split
      · next hdrop =>
          rw [Std.ExtTreeMap.getElem?_erase, if_neg]
          rw [compare_eq_iff_eq]
          exact hsrc hdrop
      · rfl
  | case5 => rfl

/-- After a move that renames, nothing is at the source path. -/
theorem getElem?_moveDb {src_path dst_path : String} {disk : Disk}
    (hne : dst_path ≠ src_path) (hsrc : disk[src_path]? ≠ none) :
    ((moveDb src_path dst_path disk).2 = disk ∨
      (moveDb src_path dst_path disk).2[src_path]? = none) ∧
    ∃ e, (moveDb src_path dst_path disk).1 = .error e := by
  rw [moveDb]
  cases disk[dst_path]? with
  | some db => exact ⟨.inl rfl, _, rfl⟩
  | none =>
      cases hdb : disk[src_path]? with
      | none => exact absurd hdb hsrc
      | some db =>
          refine ⟨.inr ?_, _, rfl⟩
          simp only
          rw [Std.ExtTreeMap.getElem?_insert, if_neg, Std.ExtTreeMap.getElem?_erase_self]
          rw [compare_eq_iff_eq]
          exact hne

/-- The migration leaves the original database in its place or moves it away. -/
theorem getElem?_migrateFromVersion
    (hfresh : ∀ number, m.randomOutputPath number ≠ m.source_path_) (version : ℤ) {disk : Disk}
    (hsrc : disk[m.source_path_]? ≠ none) :
    (m.migrateFromVersion version disk).2[m.source_path_]? = disk[m.source_path_]? ∨
      (m.migrateFromVersion version disk).2[m.source_path_]? = none := by
  have hchain := m.getElem?_migrateChain hfresh version m.source_path_ 0 false disk
    fun h => absurd h Bool.false_ne_true
  rw [migrateFromVersion]
  cases hresult : (m.migrateChain version m.source_path_ 0 false disk).1 with
  | error e => exact .inl hchain
  | ok last =>
      obtain ⟨new_src, used⟩ := last
      rw [← hchain] at hsrc
      obtain ⟨hmove, e, herror⟩ := getElem?_moveDb (hfresh (used + 1)) hsrc
      simp only [herror]
      rcases hmove with hsame | hnone
      · rw [hsame]
        exact .inl hchain
      · exact .inr hnone

theorem openDatabase_eq {disk : Disk} {db : StoredDatabase}
    (hdb : disk[m.source_path_]? = some db) :
    openDatabase m.source_path_ disk =
      match db.failure with
      | none => .ok db
      | some status => .error status.error := by
  rw [openDatabase, hdb]

/-- A database that fails to open is left alone, and taken for none if an argument is invalid. -/
theorem migrateIfNeeded_of_failure {disk : Disk} {db : StoredDatabase} {status : OpenFailure}
    (hdb : disk[m.source_path_]? = some db) (hfailure : db.failure = some status) :
    m.migrateIfNeeded disk =
      (if status.isInvalidArgument then .ok () else .error status.error, disk) := by
  rw [migrateIfNeeded, m.openDatabase_eq hdb, hfailure]
  cases hinvalid : status.isInvalidArgument <;> simp [OpenFailure.error, hinvalid]

/-- A database that is up to date stays, and so does one whose version is not known. -/
theorem migrateIfNeeded_of_upToDate {disk : Disk} (h : m.UpToDate disk) :
    (m.migrateIfNeeded disk).2 = disk ∧ ((m.migrateIfNeeded disk).1 = .ok () →
      disk[m.source_path_]? = none ∨ ∃ db, disk[m.source_path_]? = some db ∧
        db.getVersion = .ok kDatabaseSchemaVersionCurrent) := by
  cases hdb : disk[m.source_path_]? with
  | none =>
      rw [migrateIfNeeded, openDatabase, hdb]
      exact ⟨rfl, fun _ => .inl rfl⟩
  | some db =>
      cases hfailure : db.failure with
      | some status =>
          rw [m.migrateIfNeeded_of_failure hdb hfailure]
          refine ⟨rfl, fun hok => .inr ⟨db, rfl, h.refused db status hdb hfailure ?_⟩⟩
          by_contra hvalid
          rw [Bool.not_eq_true] at hvalid
          simp [hvalid] at hok
      | none =>
          rw [migrateIfNeeded, m.openDatabase_eq hdb, hfailure]
          simp only
          cases hversion : db.getVersion with
          | error e => exact ⟨rfl, fun hok => by simp at hok⟩
          | ok version =>
              obtain rfl := h.opened db hdb hfailure version hversion
              simp only [ne_eq, not_true_eq_false, if_false]
              exact ⟨trivial, fun _ => .inr ⟨db, rfl, hversion⟩⟩

/-- A database that is preserved and whose version is read has the current one. -/
theorem current_of_preserved (hfresh : ∀ number, m.randomOutputPath number ≠ m.source_path_)
    {disk : Disk}
    (hpreserved : m.Preserved disk (m.migrateIfNeeded disk).2 (m.migrateIfNeeded disk).1)
    {db : StoredDatabase} (hdb : disk[m.source_path_]? = some db) (hfailure : db.failure = none)
    {version : ℤ} (hversion : db.getVersion = .ok version) :
    version = kDatabaseSchemaVersionCurrent := by
  by_contra hne
  have hmigrated : m.migrateIfNeeded disk = (.ok (), (m.migrateFromVersion version disk).2) := by
    rw [migrateIfNeeded, m.openDatabase_eq hdb, hfailure]
    simp only [hversion]
    rw [if_pos hne]
  rw [hmigrated] at hpreserved
  have hsrc : disk[m.source_path_]? ≠ none := hdb ▸ Option.some_ne_none db
  rcases hpreserved.current rfl with hnone | ⟨db', hdb', hcurrent⟩
  · exact hsrc hnone
  · rcases m.getElem?_migrateFromVersion hfresh version hsrc with hsame | hmoved
    · rw [hsame, hdb] at hdb'
      obtain rfl := Option.some.inj hdb'
      rw [hversion] at hcurrent
      exact hne (Except.ok.inj hcurrent)
    · rw [hmoved] at hdb'
      exact Option.some_ne_none db' hdb'.symm

/-- The database is preserved exactly when there is nothing to migrate, and none of another version
is taken for an invalid argument. -/
theorem preserved_iff (hfresh : ∀ number, m.randomOutputPath number ≠ m.source_path_)
    (disk : Disk) :
    m.Preserved disk (m.migrateIfNeeded disk).2 (m.migrateIfNeeded disk).1 ↔
      m.UpToDate disk := by
  constructor
  · intro hpreserved
    refine ⟨fun db hdb hfailure version hversion => ?_, fun db status hdb hfailure hinvalid => ?_⟩
    · exact m.current_of_preserved hfresh hpreserved hdb hfailure hversion
    · rw [m.migrateIfNeeded_of_failure hdb hfailure, hinvalid] at hpreserved
      rcases hpreserved.current rfl with hnone | ⟨db', hdb', hcurrent⟩
      · rw [hdb] at hnone
        exact absurd hnone (Option.some_ne_none db)
      · rw [hdb] at hdb'
        exact Option.some.inj hdb' ▸ hcurrent
  · intro h
    obtain ⟨hsame, hsuccess⟩ := m.migrateIfNeeded_of_upToDate h
    rw [hsame]
    exact ⟨fun db hdb => ⟨db, hdb, .inl rfl⟩, hsuccess⟩

/-! ### A database that is lost -/

/-- A database with nothing but its version. -/
def versioned (version : String) : StoredDatabase where
  handles := (∅ : Std.ExtTreeMap String (Std.ExtTreeMap String (Except String String))).insert
    "configurations" ((∅ : Std.ExtTreeMap String (Except String String)).insert
      "database_schema_version" (.ok version))

/-- One step, from the second version to the third one. -/
def lastStep : RocksdbMigration where
  source_path_ := "/var/osquery/osquery.db"
  migration_map_ version :=
    if version = 2 then some fun _ _ _ => (.ok 3, some (versioned "3")) else none
  OSQUERY_HOME := "/var/osquery"
  random_generator := toText

theorem lastStep_fresh (number : ℕ) : lastStep.randomOutputPath number ≠ lastStep.source_path_ := by
  intro heq
  have hchars := congrArg (fun path : String => path.toList[13]?) heq
  simp [randomOutputPath, lastStep] at hchars

def currentDisk : Disk := (∅ : Disk).insert lastStep.source_path_ (versioned "3")

theorem preserved_iff_current :
    lastStep.Preserved currentDisk (lastStep.migrateIfNeeded currentDisk).2
      (lastStep.migrateIfNeeded currentDisk).1 := by
  apply (lastStep.preserved_iff lastStep_fresh currentDisk).mpr
  constructor
  · intro db hdb _ version hversion
    rw [currentDisk, Std.ExtTreeMap.getElem?_insert_self] at hdb
    obtain rfl := Option.some.inj hdb
    have hthree : (versioned "3").getVersion.toOption = some 3 := by decide +kernel
    rw [hversion] at hthree
    exact Option.some.inj hthree
  · intro db status hdb hfailure
    rw [currentDisk, Std.ExtTreeMap.getElem?_insert_self] at hdb
    obtain rfl := Option.some.inj hdb
    cases hfailure

def oldDisk : Disk := (∅ : Disk).insert lastStep.source_path_ (versioned "2")

/-- The original database is moved away, and nothing takes its place. -/
theorem preserved_old : (lastStep.migrateIfNeeded oldDisk).1.isOk = true ∧
    ¬ lastStep.Preserved oldDisk (lastStep.migrateIfNeeded oldDisk).2
      (lastStep.migrateIfNeeded oldDisk).1 := by
  refine ⟨by decide +kernel, ?_⟩
  intro hpreserved
  have hnone : (lastStep.migrateIfNeeded oldDisk).2[lastStep.source_path_]?.isSome = false := by
    decide +kernel
  obtain ⟨db, hdb, -⟩ := hpreserved.kept (versioned "2") Std.ExtTreeMap.getElem?_insert_self
  rw [hdb] at hnone
  exact Bool.false_ne_true hnone.symm

end RocksdbMigration

end Osquery.Database
