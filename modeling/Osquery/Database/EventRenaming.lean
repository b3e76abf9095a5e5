import Osquery.Database.Upgrade

/-!
# The renaming of the audit publisher

The second step of the upgrade visits the keys in their order, and a key is
before the key that it is renamed to, so no key is written after its own visit.
An interrupted step leaves every value of the publisher under its old or its new
key. Starting over is safe as long as no new key has the pattern in it again.
-/

namespace Osquery.Database

open Foundation.AtomicProgram Foundation.Numeral Core.BackingStore

/-! ### What the renaming is for -/

/-- Every value of the publisher audit is stored under its new key only, and every value of
another key is where it was. -/
structure Migrated (db db' : Database) : Prop where
  moved : ∀ key new value, Renames key new → lookup db kEvents key = some value →
    lookup db' kEvents new = some value ∧ lookup db' kEvents key = none
  kept : ∀ key value, ¬IsAuditKey key → lookup db kEvents key = some value →
    lookup db' kEvents key = some value

/-- No stored key of another kind has the pattern in it, no new key has it again, and no new
key is taken with another value. -/
structure Renamable (db : Database) : Prop where
  others : ∀ key, lookup db kEvents key ≠ none → ¬IsAuditKey key → new_key key = none
  once : ∀ key new, lookup db kEvents key ≠ none → Renames key new → new_key new = none
  free : ∀ key new value value', Renames key new → lookup db kEvents key = some value →
    lookup db kEvents new = some value' → value' = value

/-- The stored version. -/
def Version (db : Database) (version : ℤ) : Prop :=
  ∃ value, lookup db kPersistentSettings kDbVersionKey = some value ∧ stoi value = .ok version

/-- The values of the publisher audit are under their old or under their new keys, and the
other values are where they were. -/
structure Partial (db₀ db : Database) : Prop where
  audit : ∀ key new, Renames key new → lookup db kEvents key = lookup db₀ kEvents key ∨
    lookup db kEvents key = none ∧ lookup db kEvents new = lookup db₀ kEvents key
  other : ∀ key, ¬IsAuditKey key → lookup db kEvents key = lookup db₀ kEvents key ∨
    ∃ old, Renames old key ∧ lookup db₀ kEvents old ≠ none ∧
      lookup db kEvents key = lookup db₀ kEvents old

theorem Partial.refl (db : Database) : Partial db db :=
  ⟨fun _ _ _ => Or.inl rfl, fun _ _ => Or.inl rfl⟩

theorem Partial.congr {db₀ db db' : Database} (h : Partial db₀ db)
    (heq : ∀ key, lookup db' kEvents key = lookup db kEvents key) : Partial db₀ db' := by
  constructor
  · intro key new hnew
    rw [heq, heq]
    exact h.audit key new hnew
  · intro key hkey
    rw [heq]
    exact h.other key hkey

section Partial

variable {db₀ db : Database} {key new value : String}

/-- A key that the next step renames is one of the publisher audit. -/
theorem Partial.renames (h : Partial db₀ db) (hren : Renamable db₀)
    (hkey : lookup db kEvents key ≠ none) (hnew : new_key key = some new) : Renames key new := by
  by_cases haudit : IsAuditKey key
  · obtain ⟨new', h'⟩ := haudit
    obtain rfl := Option.some.inj (hnew.symm.trans h'.new_key_eq)
    exact h'
  · exfalso
    rcases h.other key haudit with hsame | ⟨old, hold, hstored, -⟩
    · rw [hren.others key (hsame ▸ hkey) haudit] at hnew
      exact Option.some_ne_none _ hnew.symm
    · rw [hren.once old key hstored hold] at hnew
      exact Option.some_ne_none _ hnew.symm

/-- Storing the value of a key under its new key. -/
theorem Partial.set (h : Partial db₀ db) (hren : Renames key new)
    (hkey : lookup db kEvents key = some value) :
    Partial db₀ (Ephemeral.setValue db kEvents new value) := by
  have hsame : lookup db₀ kEvents key = some value := by
    rcases h.audit key new hren with heq | ⟨hnone, -⟩
    · rw [← heq, hkey]
    · rw [hnone] at hkey
      exact absurd hkey.symm (Option.some_ne_none value)
  constructor
  · intro key' new' hren'
    rw [lookup_setValue, if_neg fun hk => hren.ne hren' hk.2, lookup_setValue]
    rcases h.audit key' new' hren' with heq | ⟨hnone, hmoved⟩
    · exact Or.inl heq
    · refine Or.inr ⟨hnone, ?_⟩
      rw [if_neg, hmoved]
      rintro ⟨-, rfl⟩
      obtain rfl := hren.new_inj hren'
      rw [hnone] at hkey
      exact Option.some_ne_none _ hkey.symm
  · intro key' hkey'
    rw [lookup_setValue]
    by_cases hnew : new = key'
    · subst hnew
      refine Or.inr ⟨key, hren, ?_, ?_⟩
      · rw [hsame]
        exact Option.some_ne_none value
      · rw [if_pos ⟨rfl, rfl⟩, hsame]
    · rw [if_neg fun hk => hnew hk.2]
      exact h.other key' hkey'

/-- Removing a key whose value is under its new key. -/
theorem Partial.remove (h : Partial db₀ db) (hren : Renames key new)
    (hnew : lookup db kEvents new = lookup db₀ kEvents key) :
    Partial db₀ (Ephemeral.remove db kEvents key) := by
  constructor
  · intro key' new' hren'
    by_cases hk : key = key'
    · subst hk
      obtain rfl := hren.key_inj hren'
      right
      rw [lookup_remove, if_pos ⟨rfl, rfl⟩, lookup_remove, if_neg fun hk => hren.ne hren hk.2.symm]
      exact ⟨rfl, hnew⟩
    · rw [lookup_remove, if_neg fun h' => hk h'.2, lookup_remove,
        if_neg fun h' => hren'.ne hren h'.2.symm]
      exact h.audit key' new' hren'
  · intro key' hkey'
    rw [lookup_remove, if_neg]
    · exact h.other key' hkey'
    · rintro ⟨-, rfl⟩
      exact hkey' ⟨new, hren⟩

/-- Once no stored key of the publisher is left, the values have been renamed. -/
theorem Partial.migrated (h : Partial db₀ db) (hren : Renamable db₀)
    (hgone : ∀ key new, Renames key new → lookup db₀ kEvents key ≠ none →
      lookup db kEvents key = none) : Migrated db₀ db := by
  constructor
  · intro key new value hrename hkey
    have hnone := hgone key new hrename (by rw [hkey]; exact Option.some_ne_none value)
    refine ⟨?_, hnone⟩
    rcases h.audit key new hrename with heq | ⟨-, hmoved⟩
    · rw [hnone, hkey] at heq
      exact absurd heq.symm (Option.some_ne_none value)
    · rw [hmoved, hkey]
  · intro key value haudit hkey
    rcases h.other key haudit with heq | ⟨old, hold, hstored, hmoved⟩
    · rw [heq, hkey]
    · obtain ⟨value', hvalue'⟩ := Option.ne_none_iff_exists'.mp hstored
      rw [hmoved, hvalue', hren.free old key value' value hold hvalue' hkey]

end Partial

/-! ### One pass over the keys -/

section Pass

variable {db₀ : Database} {key new : String} {s : Database}

@[simp] theorem run_getEvents (key : String) (s : Database) :
    (getDatabaseValue kEvents key : Prog DbOp _).run s = (Ephemeral.get s kEvents key, s) := rfl

@[simp] theorem run_setEvents (key value : String) (s : Database) :
    (setDatabaseValue kEvents key value : Prog DbOp _).run s =
      (.ok (), Ephemeral.setValue s kEvents key value) := rfl

@[simp] theorem run_deleteEvents (key : String) (s : Database) :
    (deleteDatabaseValue kEvents key : Prog DbOp _).run s =
      (.ok (), Ephemeral.remove s kEvents key) := rfl

/-- A key with the pattern is renamed if it is stored. -/
theorem run_migrateKey (h : new_key key = some new) (s : Database) :
    ((migrateKey key).run s).2 =
      match lookup s kEvents key with
      | none => s
      | some value => Ephemeral.remove (Ephemeral.setValue s kEvents new value) kEvents key := by
  rw [migrateKey, h]
  dsimp only
  rw [Prog.run_bind, run_getEvents, ← toOption_get]
  cases Ephemeral.get s kEvents key with
  | error e => rfl
  | ok value => rfl

theorem run_migrateKey_none (h : new_key key = none) (s : Database) :
    ((migrateKey key).run s).2 = s := by
  rw [migrateKey, h]
  rfl

/-- Renaming a key leaves it without a value. -/
theorem lookup_migrateKey_self (h : new_key key = some new) (s : Database) :
    lookup ((migrateKey key).run s).2 kEvents key = none := by
  rw [run_migrateKey h]
  cases hkey : lookup s kEvents key with
  | none => exact hkey
  | some value =>
      dsimp only
      rw [lookup_remove, if_pos ⟨rfl, rfl⟩]

/-- Renaming a key leaves the keys alone that are neither it nor its new key. -/
theorem lookup_migrateKey_of_ne {other : String} (hkey : key ≠ other)
    (hnew : ∀ new, new_key key = some new → new ≠ other) (s : Database) :
    lookup ((migrateKey key).run s).2 kEvents other = lookup s kEvents other := by
  cases hk : new_key key with
  | none => rw [run_migrateKey_none hk]
  | some new =>
      rw [run_migrateKey hk]
      cases lookup s kEvents key with
      | none => rfl
      | some value =>
          dsimp only
          rw [lookup_remove, if_neg fun h => hkey h.2, lookup_setValue,
            if_neg fun h => hnew new hk h.2]

theorem lookup_migrateKey_settings (key key' : String) (s : Database) :
    lookup ((migrateKey key).run s).2 kPersistentSettings key' =
      lookup s kPersistentSettings key' := by
  have hne : kEvents ≠ kPersistentSettings := by decide
  cases hk : new_key key with
  | none => rw [run_migrateKey_none hk]
  | some new =>
      rw [run_migrateKey hk]
      cases lookup s kEvents key with
      | none => rfl
      | some value =>
          dsimp only
          rw [lookup_remove, if_neg fun h => hne h.1, lookup_setValue, if_neg fun h => hne h.1]

theorem migrateKeys_cons (key : String) (rest : List String) (s : Database) :
    (migrateKeys (key :: rest)).run s = (migrateKeys rest).run ((migrateKey key).run s).2 := by
  rw [migrateKeys, Prog.run_bind]

theorem lookup_migrateKeys_settings (keys : List String) (key : String) (s : Database) :
    lookup ((migrateKeys keys).run s).2 kPersistentSettings key =
      lookup s kPersistentSettings key := by
  induction keys generalizing s with
  | nil => rfl
  | cons first rest ih => rw [migrateKeys_cons, ih, lookup_migrateKey_settings]

/-- The keys after a key do not write it. -/
theorem lookup_migrateKeys_of_lt {keys : List String} {other : String}
    (h : ∀ key ∈ keys, other < key) (s : Database) :
    lookup ((migrateKeys keys).run s).2 kEvents other = lookup s kEvents other := by
  induction keys generalizing s with
  | nil => rfl
  | cons key rest ih =>
      have hlt := h key List.mem_cons_self
      rw [migrateKeys_cons, ih fun k hk => h k (List.mem_cons_of_mem _ hk)]
      apply lookup_migrateKey_of_ne hlt.ne'
      intro new hnew
      exact (hlt.trans (lt_new_key hnew)).ne'

/-- After a pass over keys in order, none of those with the pattern has a value. -/
theorem lookup_migrateKeys_of_mem {keys : List String} (hsorted : keys.Pairwise (· < ·))
    (hmem : key ∈ keys) (hnew : new_key key = some new) (s : Database) :
    lookup ((migrateKeys keys).run s).2 kEvents key = none := by
  induction keys generalizing s with
  | nil => exact absurd hmem List.not_mem_nil
  | cons first rest ih =>
      obtain ⟨hfirst, hrest⟩ := List.pairwise_cons.mp hsorted
      rw [migrateKeys_cons]
      rcases List.mem_cons.mp hmem with rfl | hmem
      · rw [lookup_migrateKeys_of_lt hfirst, lookup_migrateKey_self hnew]
      · exact ih hrest hmem _

end Pass

/-! ### An upgrade that may be interrupted -/

theorem kPersistentSettings_ne_kEvents : kPersistentSettings ≠ kEvents := by decide

theorem Version.congr {db db' : Database} {version : ℤ} (h : Version db version)
    (heq : ∀ key, lookup db' kPersistentSettings key = lookup db kPersistentSettings key) :
    Version db' version := by
  obtain ⟨value, hvalue, hversion⟩ := h
  exact ⟨value, (heq _).trans hvalue, hversion⟩

/-- An upgrade that has not ended. -/
structure Underway (db₀ db : Database) : Prop where
  values : Partial db₀ db
  version : Version db 1

/-- An upgrade that has ended. -/
structure Upgraded (db₀ db : Database) : Prop where
  migrated : Migrated db₀ db
  version : Version db 2

section Upgrade

variable {ptreeToRapidJSON : String → Except String String} {db₀ s : Database} {key new : String}

theorem Underway.set {value : String} (h : Underway db₀ s) (hren : Renames key new)
    (hkey : lookup s kEvents key = some value) :
    Underway db₀ (Ephemeral.setValue s kEvents new value) := by
  refine ⟨h.values.set hren hkey, h.version.congr fun k => ?_⟩
  rw [lookup_setValue, if_neg fun hk => kPersistentSettings_ne_kEvents hk.1.symm]

theorem Underway.remove (h : Underway db₀ s) (hren : Renames key new)
    (hnew : lookup s kEvents new = lookup db₀ kEvents key) :
    Underway db₀ (Ephemeral.remove s kEvents key) := by
  refine ⟨h.values.remove hren hnew, h.version.congr fun k => ?_⟩
  rw [lookup_remove, if_neg fun hk => kPersistentSettings_ne_kEvents hk.1.symm]

/-- Renaming one key of the publisher keeps the upgrade underway at every point. -/
theorem throughout_migrateKey (h : Underway db₀ s)
    (hkey : ∀ new, new_key key = some new → Renames key new) :
    (migrateKey key).Throughout (Underway db₀) s := by
  cases hnew : new_key key with
  | none =>
      rw [migrateKey, hnew]
      exact h
  | some new =>
      have hren := hkey new hnew
      rw [migrateKey, hnew]
      refine Prog.Throughout.bind ⟨h, h⟩ ?_
      rw [run_getEvents]
      cases hget : Ephemeral.get s kEvents key with
      | error e => exact h
      | ok value =>
          have hvalue := (get_eq_ok_iff s kEvents key value).mp hget
          have hset := h.set hren hvalue
          have hsame : lookup s kEvents key = lookup db₀ kEvents key := by
            rcases h.values.audit key new hren with heq | ⟨hnone, -⟩
            · exact heq
            · rw [hnone] at hvalue
              exact absurd hvalue.symm (Option.some_ne_none value)
          refine Prog.Throughout.bind ⟨h, hset⟩ (Prog.Throughout.bind ⟨hset, ?_⟩ ?_)
          all_goals
            refine hset.remove hren ?_
            rw [lookup_setValue, if_pos ⟨rfl, rfl⟩, ← hsame, hvalue]

theorem throughout_migrateKeys {keys : List String} (h : Underway db₀ s)
    (hkeys : ∀ key ∈ keys, ∀ new, new_key key = some new → Renames key new) :
    (migrateKeys keys).Throughout (Underway db₀) s := by
  induction keys generalizing s with
  | nil => exact h
  | cons key rest ih =>
      have hfirst := throughout_migrateKey h (hkeys key List.mem_cons_self)
      rw [migrateKeys]
      exact hfirst.bind (ih hfirst.run fun k hk =>
        hkeys k (List.mem_cons_of_mem _ hk))

/-- Renaming keys of the publisher gives none of its keys a value. -/
theorem lookup_migrateKeys_none (hrename : Renames key new) {keys : List String}
    (hkeys : ∀ k ∈ keys, ∀ new, new_key k = some new → Renames k new)
    (hs : lookup s kEvents key = none) :
    lookup ((migrateKeys keys).run s).2 kEvents key = none := by
  induction keys generalizing s with
  | nil => exact hs
  | cons first rest ih =>
      rw [migrateKeys_cons]
      apply ih fun k hk => hkeys k (List.mem_cons_of_mem _ hk)
      by_cases hfirst : first = key
      · subst hfirst
        exact lookup_migrateKey_self hrename.new_key_eq s
      · rw [lookup_migrateKey_of_ne hfirst, hs]
        intro new' hnew'
        exact (hkeys first List.mem_cons_self new' hnew').ne hrename

/-- The keys of the events domain in the order of a scan. -/
def eventKeys (db : Database) : List String := Ephemeral.scan db kEvents "" 0

theorem mem_eventKeys {db : Database} : key ∈ eventKeys db ↔ lookup db kEvents key ≠ none := by
  rw [eventKeys, mem_scan_zero, Option.isSome_iff_ne_none]
  simp

theorem pairwise_eventKeys (db : Database) : (eventKeys db).Pairwise (· < ·) := by
  have hordered : (Ephemeral.domainOf db kEvents).keys.Pairwise fun a b => compare a b = .lt :=
    Std.ExtTreeMap.ordered_keys
  have hkeys := hordered.imp fun {a b} (hab : compare a b = .lt) =>
    compareOfLessAndEq_eq_lt.mp hab
  exact hkeys.sublist (scan_sublist db kEvents "" 0)

/-- The database after the second step. -/
def renamedEvents (db : Database) : Database := ((migrateKeys (eventKeys db)).run db).2

theorem run_migrateV1V2 (db : Database) : migrateV1V2.run db = (.ok (), renamedEvents db) := by
  have hscan : (scanDatabaseKeys kEvents "" 0 : Prog DbOp _).run db =
      (.ok (eventKeys db), db) := rfl
  rw [migrateV1V2, Prog.run_bind, hscan]
  dsimp only
  rw [Prog.run_bind, renamedEvents]
  rfl

theorem get_version {db : Database} {version : ℤ} (h : Version db version) :
    ∃ value, (getDatabaseValue kPersistentSettings kDbVersionKey : Prog DbOp _).run db =
      (.ok value, db) ∧ stoi value = .ok version := by
  obtain ⟨value, hvalue, hversion⟩ := h
  have hget : (getDatabaseValue kPersistentSettings kDbVersionKey : Prog DbOp _).run db =
      (Ephemeral.get db kPersistentSettings kDbVersionKey, db) := rfl
  exact ⟨value, hget.trans (by rw [(get_eq_ok_iff _ _ _ _).mpr hvalue]), hversion⟩

/-- The rounds of an upgrade from the first version. -/
theorem upgradeFrom_one : upgradeFrom ptreeToRapidJSON 2 3 1 = migrateV1V2 >>= fun status =>
    match status with
    | .error _ => pure (.error "Database migration failed.")
    | .ok () => setDatabaseValue kPersistentSettings kDbVersionKey "2" >>= fun status =>
        match status with
        | .error _ => pure (.error "Database migration failed.")
        | .ok () => pure (.ok ()) := by
  have hround : ∀ rounds, upgradeFrom ptreeToRapidJSON 2 (rounds + 1) 2 = pure (.ok ()) :=
    fun rounds => rfl
  rw [upgradeFrom, if_neg (by decide), migrate, if_neg (by decide), if_pos rfl]
  simp only [Int.reduceAdd, hround]
  rfl

/-- An upgrade from the first version renames the events and stores the version. -/
theorem run_upgradeDatabase {db : Database} (h : Version db 1) :
    (upgradeDatabase ptreeToRapidJSON 2).run db = (.ok (),
      Ephemeral.setValue (renamedEvents db) kPersistentSettings kDbVersionKey "2") := by
  obtain ⟨value, hget, hversion⟩ := get_version h
  rw [upgradeDatabase, Prog.run_bind, hget]
  dsimp only
  rw [hversion]
  dsimp only
  rw [upgradeFrom_one, Prog.run_bind, run_migrateV1V2]
  rfl

theorem run_upgradeDatabase_upgraded {db : Database} (h : Version db 2) :
    (upgradeDatabase ptreeToRapidJSON 2).run db = (.ok (), db) := by
  obtain ⟨value, hget, hversion⟩ := get_version h
  rw [upgradeDatabase, Prog.run_bind, hget]
  dsimp only
  rw [hversion]
  rfl

/-- The step can be interrupted before the version is stored. -/
theorem exists_stopped_renamedEvents (ptreeToRapidJSON : String → Except String String)
    {db : Database} (h : Version db 1) :
    ∃ n, (upgradeDatabase ptreeToRapidJSON 2).stopped n db = renamedEvents db := by
  obtain ⟨value, hget, hversion⟩ := get_version h
  obtain ⟨m, hm⟩ := Prog.exists_stopped_bind
    (getDatabaseValue kPersistentSettings kDbVersionKey : Prog DbOp (Except String String)) db
  obtain ⟨n, hn⟩ := Prog.exists_stopped_bind migrateV1V2 db
  refine ⟨0 + n + m, ?_⟩
  rw [upgradeDatabase, hm, hget]
  dsimp only
  rw [hversion]
  dsimp only
  rw [upgradeFrom_one, hn, run_migrateV1V2]
  rfl

/-- The keys of a store where the upgrade is underway that the step renames. -/
theorem Underway.renames_of_mem (h : Underway db₀ s) (hren : Renamable db₀) :
    ∀ key ∈ eventKeys s, ∀ new, new_key key = some new → Renames key new :=
  fun _ hkey _ hnew => h.values.renames hren (mem_eventKeys.mp hkey) hnew

/-- The step finishes what is underway. -/
theorem Underway.upgraded (h : Underway db₀ s) (hren : Renamable db₀) :
    Upgraded db₀ (Ephemeral.setValue (renamedEvents s) kPersistentSettings kDbVersionKey "2") := by
  have hafter := (throughout_migrateKeys h (h.renames_of_mem hren)).run
  have hsame : ∀ key, lookup (Ephemeral.setValue (renamedEvents s) kPersistentSettings kDbVersionKey
      "2") kEvents key = lookup (renamedEvents s) kEvents key := fun key => by
    rw [lookup_setValue, if_neg fun hk => kPersistentSettings_ne_kEvents hk.1]
  refine ⟨(hafter.values.congr hsame).migrated hren fun key new hrename _ => ?_, "2", ?_, by decide⟩
  · rw [hsame]
    by_cases hkey : lookup s kEvents key = none
    · exact lookup_migrateKeys_none hrename (h.renames_of_mem hren) hkey
    · exact lookup_migrateKeys_of_mem (pairwise_eventKeys s) (mem_eventKeys.mpr hkey)
        hrename.new_key_eq s
  · rw [lookup_setValue, if_pos ⟨rfl, rfl⟩]

/-- An upgrade is underway or has ended at every point of a run. -/
theorem throughout_upgradeDatabase (ptreeToRapidJSON : String → Except String String)
    (hren : Renamable db₀)
    (h : Underway db₀ s ∨ Upgraded db₀ s) :
    (upgradeDatabase ptreeToRapidJSON 2).Throughout
      (fun s => Underway db₀ s ∨ Upgraded db₀ s) s := by
  rw [upgradeDatabase]
  refine Prog.Throughout.bind ⟨h, h⟩ ?_
  rcases h with h | h
  · obtain ⟨value, hget, hversion⟩ := get_version h.version
    have hkeys := (throughout_migrateKeys h (h.renames_of_mem hren)).mono
      (J := fun s => Underway db₀ s ∨ Upgraded db₀ s) fun _ => Or.inl
    have hafter := (throughout_migrateKeys h (h.renames_of_mem hren)).run
    rw [hget]
    dsimp only
    rw [hversion]
    dsimp only
    rw [upgradeFrom_one]
    refine Prog.Throughout.bind (Prog.Throughout.bind ⟨Or.inl h, Or.inl h⟩
      (hkeys.bind (Or.inl hafter))) ?_
    rw [run_migrateV1V2]
    exact Prog.Throughout.bind ⟨Or.inl hafter, Or.inr (h.upgraded hren)⟩ (Or.inr (h.upgraded hren))
  · obtain ⟨value, hget, hversion⟩ := get_version h.version
    rw [hget]
    dsimp only
    rw [hversion]
    exact Or.inr h

/-- A step over a store in which a key has the pattern leaves it without a value. -/
theorem lookup_renamedEvents (hkey : lookup s kEvents key ≠ none) (hnew : new_key key = some new) :
    lookup (renamedEvents s) kEvents key = none :=
  lookup_migrateKeys_of_mem (pairwise_eventKeys s) (mem_eventKeys.mpr hkey) hnew s

theorem lookup_setVersion (db : Database) (key : String) :
    lookup (Ephemeral.setValue db kPersistentSettings kDbVersionKey "2") kEvents key =
      lookup db kEvents key := by
  rw [lookup_setValue, if_neg fun hk => kPersistentSettings_ne_kEvents hk.1]

/-- What an undisturbed upgrade needs. -/
theorem others_of_migrated (h : Migrated db₀ (renamedEvents db₀)) {key : String}
    (hkey : lookup db₀ kEvents key ≠ none) (haudit : ¬IsAuditKey key) : new_key key = none := by
  by_contra hsome
  obtain ⟨new, hnew⟩ := Option.ne_none_iff_exists'.mp hsome
  obtain ⟨value, hvalue⟩ := Option.ne_none_iff_exists'.mp hkey
  have hkept := h.kept key value haudit hvalue
  rw [lookup_renamedEvents hkey hnew] at hkept
  exact absurd hkept.symm (Option.some_ne_none value)

theorem Migrated.setVersion_iff {db db' : Database} :
    Migrated db (Ephemeral.setValue db' kPersistentSettings kDbVersionKey "2") ↔
      Migrated db db' := by
  constructor
  · rintro ⟨hmoved, hkept⟩
    simp only [lookup_setVersion] at hmoved hkept
    exact ⟨hmoved, hkept⟩
  · rintro ⟨hmoved, hkept⟩
    constructor
    · simpa only [lookup_setVersion] using hmoved
    · simpa only [lookup_setVersion] using hkept

/-- The upgrade succeeds and renames the events of the publisher audit and nothing else. -/
def Upgrades (ptreeToRapidJSON : String → Except String String) (db₀ s : Database) : Prop :=
  ((upgradeDatabase ptreeToRapidJSON 2).run s).1 = .ok () ∧
    Migrated db₀ ((upgradeDatabase ptreeToRapidJSON 2).run s).2

/-- From a database of the first version, the upgrade renames exactly the keys of the publisher
after all interruptions if and only if the stored keys are renamable. -/
theorem upgradeDatabase_migrates_iff (ptreeToRapidJSON : String → Except String String)
    {db : Database} (h : Version db 1) :
    (∀ stops : List ℕ, Upgrades ptreeToRapidJSON db
        ((upgradeDatabase ptreeToRapidJSON 2).interrupted stops db)) ↔ Renamable db := by
  constructor
  · intro hall
    have hfirst : Migrated db (renamedEvents db) := by
      have hrun := (hall []).2
      rw [Prog.interrupted, List.foldl_nil, run_upgradeDatabase h] at hrun
      exact Migrated.setVersion_iff.mp hrun
    refine ⟨fun key hkey haudit => others_of_migrated hfirst hkey haudit, ?_, ?_⟩
    · intro key new hkey hren
      by_contra hsome
      obtain ⟨newest, hnewest⟩ := Option.ne_none_iff_exists'.mp hsome
      obtain ⟨value, hvalue⟩ := Option.ne_none_iff_exists'.mp hkey
      obtain ⟨n, hn⟩ := exists_stopped_renamedEvents ptreeToRapidJSON h
      have hversion : Version (renamedEvents db) 1 := h.congr fun key =>
        lookup_migrateKeys_settings (eventKeys db) key db
      have hsecond : Migrated db (renamedEvents (renamedEvents db)) := by
        have hrun := (hall [n]).2
        rw [Prog.interrupted, List.foldl_cons, List.foldl_nil, hn,
          run_upgradeDatabase hversion] at hrun
        exact Migrated.setVersion_iff.mp hrun
      have hstored := (hfirst.moved key new value hren hvalue).1
      have hmoved := (hsecond.moved key new value hren hvalue).1
      rw [lookup_renamedEvents (by rw [hstored]; exact Option.some_ne_none value) hnewest] at hmoved
      exact absurd hmoved.symm (Option.some_ne_none value)
    · intro key new value value' hren hvalue hvalue'
      have hmoved := (hfirst.moved key new value hren hvalue).1
      have hkept := hfirst.kept new value' hren.not_isAuditKey hvalue'
      exact Option.some.inj (hkept.symm.trans hmoved)
  · intro hren stops
    have hstate := Prog.interrupted_invariant
      (fun s hs => throughout_upgradeDatabase ptreeToRapidJSON hren hs)
      (Or.inl ⟨Partial.refl db, h⟩) stops
    rcases hstate with hstate | hstate
    · rw [Upgrades, run_upgradeDatabase hstate.version]
      exact ⟨rfl, (hstate.upgraded hren).migrated⟩
    · rw [Upgrades, run_upgradeDatabase_upgraded hstate.version]
      exact ⟨rfl, hstate.migrated⟩

end Upgrade

/-! ### A scheduled query with the pattern in its name -/

/-- The position of the scheduled query `daily.audit.report` in a database of the first version. -/
def reportDatabase : Database :=
  Ephemeral.setValue (Ephemeral.setValue ∅ kPersistentSettings kDbVersionKey "1") kEvents
    "optimize.daily.audit.report" "100"

theorem reportDatabase_version : Version reportDatabase 1 := ⟨"1", by decide +kernel, by decide⟩

theorem lookup_reportDatabase {key : String} (h : lookup reportDatabase kEvents key ≠ none) :
    key = (EventKey.optimize "daily.audit.report").text := by
  by_contra hne
  rw [reportDatabase, lookup_setValue, if_neg fun hk => hne hk.2.symm, lookup_setValue,
    if_neg fun hk => kPersistentSettings_ne_kEvents hk.1] at h
  simp [lookup, Ephemeral.domainOf] at h

theorem upgradeDatabase_migrates_report :
    (∀ stops : List ℕ, Upgrades Except.ok reportDatabase
        ((upgradeDatabase Except.ok 2).interrupted stops reportDatabase)) ↔
      Renamable reportDatabase :=
  upgradeDatabase_migrates_iff Except.ok reportDatabase_version

/-- The position of the query is lost, without any interruption. -/
theorem report_not_upgrades :
    ¬∀ (ptreeToRapidJSON : String → Except String String) (db : Database), Version db 1 →
      (∀ key, lookup db kEvents key ≠ none → ∃ k : EventKey, k.text = key) →
        ∀ stops : List ℕ, Upgrades ptreeToRapidJSON db
          ((upgradeDatabase ptreeToRapidJSON 2).interrupted stops db) := by
  intro h
  have hup := h Except.ok reportDatabase reportDatabase_version
    (fun key hkey => ⟨_, (lookup_reportDatabase hkey).symm⟩) []
  have haudit : ¬IsAuditKey (EventKey.optimize "daily.audit.report").text := by
    rw [isAuditKey_text_iff fun _ _ _ hk => EventKey.noConfusion hk]
    rintro ⟨family, rest, hk⟩
    exact EventKey.noConfusion hk
  have hkept := hup.2.kept _ "100" haudit (by decide +kernel)
  have hlost : lookup ((upgradeDatabase Except.ok 2).run reportDatabase).2 kEvents
      (EventKey.optimize "daily.audit.report").text = none := by
    decide +kernel
  rw [Prog.interrupted, List.foldl_nil, hlost] at hkept
  exact absurd hkept.symm (Option.some_ne_none "100")

end Osquery.Database
