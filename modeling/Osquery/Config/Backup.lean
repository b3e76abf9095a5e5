import Osquery.Config.Update

/-!
# The backup of the configuration

After an update the texts of all sources are stored, each under the name of its
source with a prefix. When the configuration cannot be read at the first refresh,
the texts are read back. A source of an earlier backup that is not among the
sources any more is removed.

## Implementation notes

Database operations are those of the in-memory plugin: they succeed, and a scan
selects the keys that begin with the prefix. The two programs hold one lock, so
they never run at the same time.
-/

namespace Osquery.Config

open Foundation.AtomicProgram Foundation.Changes Foundation.Separated Core.BackingStore

def kConfigPersistencePrefix : String := "config_persistence."

/-- The key of a source. -/
def backupKey (source : String) : String := kConfigPersistencePrefix ++ source

/-- The source that a key belongs to. -/
def sourceOf (key : String) : String :=
  String.ofList (key.toList.drop kConfigPersistencePrefix.length)

inductive RestoreConfigError
  | DatabaseError (message : String)

/-! ### The programs -/

def restoreKeys :
    List String → ConfigMap → Prog DbOp (Except RestoreConfigError ConfigMap)
  | [], config => return .ok config
  | key :: keys, config => do
      match ← getDatabaseValue kPersistentSettings key with
      | .error _ => return .error (.DatabaseError ("Could not retrieve value for the key: " ++ key))
      | .ok value => restoreKeys keys (config.insert (sourceOf key) value)

/-- The sources that were stored last. -/
def restoreConfigBackup : Prog DbOp (Except RestoreConfigError ConfigMap) := do
  let keys ← scanDatabaseKeys kPersistentSettings kConfigPersistencePrefix 0
  restoreKeys (keys.toOption.getD []) ∅

/-- Remove the sources that are not in the configuration. -/
def deleteStale (config : ConfigMap) : List String → Prog DbOp Unit
  | [] => return ()
  | key :: keys => do
      if config.contains (sourceOf key) then deleteStale config keys
      else
        let _ ← deleteDatabaseValue kPersistentSettings key
        deleteStale config keys

def storeSources : List (String × String) → Prog DbOp Unit
  | [] => return ()
  | source :: sources => do
      let _ ← setDatabaseValue kPersistentSettings (backupKey source.1) source.2
      storeSources sources

/-- Only the given sources stay stored. -/
def backupConfig (config : ConfigMap) : Prog DbOp Unit := do
  let keys ← scanDatabaseKeys kPersistentSettings kConfigPersistencePrefix 0
  deleteStale config (keys.toOption.getD [])
  storeSources config.toList

/-! ### Keys and sources -/

theorem sourceOf_backupKey (source : String) : sourceOf (backupKey source) = source :=
  ofList_drop_append kConfigPersistencePrefix source

theorem backupKey_sourceOf {key : String} (h : kConfigPersistencePrefix.toList <+: key.toList) :
    backupKey (sourceOf key) = key := append_ofList_drop h

theorem backupKey_inj {a b : String} : backupKey a = backupKey b ↔ a = b :=
  String.append_right_inj _

theorem prefix_backupKey (source : String) :
    kConfigPersistencePrefix.toList <+: (backupKey source).toList := by
  rw [backupKey, String.toList_append]
  exact List.prefix_append _ _

/-! ### What the loops do -/

theorem run_getDatabaseValue (db : Database) (key : String) :
    (getDatabaseValue kPersistentSettings key : Prog DbOp (Except String String)).run db =
      (Ephemeral.get db kPersistentSettings key, db) := run_request (by decide) _ db

theorem run_scanDatabaseKeys (db : Database) (pre : String) (max : ℕ) :
    (scanDatabaseKeys kPersistentSettings pre max : Prog DbOp (Except String (List String))).run
      db = (.ok (Ephemeral.scan db kPersistentSettings pre max), db) := run_request (by decide) _ db

/-- The keys that are removed are those whose source is gone. -/
theorem run_deleteStale (config : ConfigMap) (keys : List String) (db : Database) :
    ((deleteStale config keys).run db).2 =
      (keys.filter fun key => !config.contains (sourceOf key)).foldl
        (fun db key => Ephemeral.remove db kPersistentSettings key) db := by
  induction keys generalizing db with
  | nil => rfl
  | cons key keys ih =>
      rw [deleteStale, Prog.run_ite, List.filter_cons]
      cases hkey : config.contains (sourceOf key) with
      | true => exact ih db
      | false => exact ih (Ephemeral.remove db kPersistentSettings key)

theorem run_storeSources (sources : List (String × String)) (db : Database) :
    ((storeSources sources).run db).2 = Ephemeral.putBatch db kPersistentSettings
      (sources.map fun source => (backupKey source.1, source.2)) := by
  induction sources generalizing db with
  | nil => rfl
  | cons source sources ih =>
      rw [storeSources, Prog.run_bind, ih]
      rfl

/-- What is read back are the values of the keys. -/
theorem run_restoreKeys (keys : List String) {db : Database} (config : ConfigMap)
    (hkeys : ∀ key ∈ keys, (lookup db kPersistentSettings key).isSome = true ∧
      kConfigPersistencePrefix.toList <+: key.toList) :
    ∃ restored : ConfigMap, (restoreKeys keys config).run db = (.ok restored, db) ∧
      ∀ source, restored[source]? =
        if backupKey source ∈ keys then lookup db kPersistentSettings (backupKey source)
        else config[source]? := by
  induction keys generalizing config with
  | nil => exact ⟨config, rfl, fun source => (if_neg List.not_mem_nil).symm⟩
  | cons key keys ih =>
      obtain ⟨⟨hsome, hinit⟩, hrest⟩ := List.forall_mem_cons.mp hkeys
      obtain ⟨value, hvalue⟩ := Option.isSome_iff_exists.mp hsome
      obtain ⟨restored, hrun, hrestored⟩ := ih (config.insert (sourceOf key) value) hrest
      refine ⟨restored, ?_, fun source => ?_⟩
      · rw [restoreKeys, Prog.run_bind, run_getDatabaseValue,
          (get_eq_ok_iff db kPersistentSettings key value).mpr hvalue]
        exact hrun
      · rw [hrestored source]
        by_cases hmem : backupKey source ∈ keys
        · rw [if_pos hmem, if_pos (List.mem_cons_of_mem _ hmem)]
        · rw [if_neg hmem, Std.ExtTreeMap.getElem?_insert]
          simp only [Std.compare_eq_iff_eq]
          by_cases hkey : sourceOf key = source
          · have hback : backupKey source = key := by rw [← hkey, backupKey_sourceOf hinit]
            rw [if_pos hkey, if_pos (hback ▸ List.mem_cons_self), hback, hvalue]
          · rw [if_neg hkey, if_neg]
            intro h
            rcases List.mem_cons.mp h with h | h
            · exact hkey (by rw [← h, sourceOf_backupKey])
            · exact hmem h

/-! ### The round trip -/

theorem run_backupConfig (config : ConfigMap) (db : Database) :
    ((backupConfig config).run db).2 = Ephemeral.putBatch
      (((Ephemeral.scan db kPersistentSettings kConfigPersistencePrefix 0).filter fun key =>
        !config.contains (sourceOf key)).foldl
          (fun db key => Ephemeral.remove db kPersistentSettings key) db)
      kPersistentSettings (config.toList.map fun source => (backupKey source.1, source.2)) := by
  rw [backupConfig, Prog.run_bind, run_scanDatabaseKeys, Prog.run_bind, run_storeSources,
    ← run_deleteStale]
  rfl

/-- After a backup the keys with the prefix are those of the sources. -/
theorem lookup_backupConfig (config : ConfigMap) (db : Database) (source : String) :
    lookup ((backupConfig config).run db).2 kPersistentSettings (backupKey source) =
      config[source]? := by
  rw [run_backupConfig]
  cases hsource : config[source]? with
  | some text =>
      have hmem : (source, text) ∈ config.toList :=
        Std.ExtTreeMap.mem_toList_iff_getElem?_eq_some.mpr hsource
      have hnodup : (config.toList.map fun source => (backupKey source.1, source.2)).Pairwise
          fun p q => p.1 ≠ q.1 := by
        apply List.pairwise_map.mpr
        apply (pairwise_ne_toList config).imp
        intro p q hne heq
        exact hne (backupKey_inj.mp heq)
      exact lookup_putBatch_of_mem hnodup (List.mem_map_of_mem hmem)
  | none =>
      have hnot : config.contains source = false := by
        rw [Std.ExtTreeMap.contains_eq_isSome_getElem?, hsource]
        rfl
      rw [lookup_putBatch_of_forall_ne, lookup_foldl_remove]
      · split
        · rfl
        · rename_i hstale
          by_contra hsome
          apply hstale
          refine ⟨rfl, List.mem_filter.mpr ⟨mem_scan_zero.mpr ⟨?_, prefix_backupKey source⟩, ?_⟩⟩
          · exact Option.isSome_iff_ne_none.mpr hsome
          · rw [sourceOf_backupKey, hnot]
            rfl
      · intro _ p hp heq
        obtain ⟨other, hother, rfl⟩ := List.mem_map.mp hp
        obtain rfl := backupKey_inj.mp heq
        rw [Std.ExtTreeMap.mem_toList_iff_getElem?_eq_some.mp hother] at hsource
        cases hsource

/-- Restoring after a backup returns the configuration that was backed up, whatever was stored
before, and the backup changes no other key. -/
theorem restore_after_backup (db : Database) (config : ConfigMap) :
    restoreConfigBackup.run ((backupConfig config).run db).2 =
        (.ok config, ((backupConfig config).run db).2) ∧
      ∀ domain key,
        ¬(domain = kPersistentSettings ∧ kConfigPersistencePrefix.toList <+: key.toList) →
        lookup ((backupConfig config).run db).2 domain key = lookup db domain key := by
  constructor
  · set stored := ((backupConfig config).run db).2 with hstored
    obtain ⟨restored, hrun, hrestored⟩ := run_restoreKeys
      (Ephemeral.scan stored kPersistentSettings kConfigPersistencePrefix 0) ∅
      fun key hkey => mem_scan_zero.mp hkey
    have heq : restored = config := by
      apply Std.ExtTreeMap.ext_getElem?
      intro source
      rw [hrestored source, ← lookup_backupConfig config db source, ← hstored]
      split
      · rfl
      · rename_i hnot
        rw [Std.ExtTreeMap.getElem?_empty]
        by_contra hsome
        apply hnot
        exact mem_scan_zero.mpr ⟨Option.isSome_iff_ne_none.mpr (Ne.symm hsome),
          prefix_backupKey source⟩
    rw [restoreConfigBackup, Prog.run_bind, run_scanDatabaseKeys]
    exact heq ▸ hrun
  · intro domain key houtside
    rw [run_backupConfig, lookup_putBatch_of_forall_ne, lookup_foldl_remove, if_neg]
    · rintro ⟨rfl, hkey⟩
      exact houtside ⟨rfl, (of_mem_scan (List.mem_filter.mp hkey).1).2⟩
    · rintro rfl p hp rfl
      obtain ⟨source, -, rfl⟩ := List.mem_map.mp hp
      exact houtside ⟨rfl, prefix_backupKey source.1⟩

end Osquery.Config
