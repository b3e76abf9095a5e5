import Osquery.Core.BackingStore

/-!
# Upgrade of the results database

The database is upgraded from version to version, and the version is stored after
each step. The second step renames the events of the audit publisher: it moves
every value whose key contains `.audit.` to the key with the new publisher name.
The keys of event optimization contain names of scheduled queries, and a step
that was interrupted starts over on the keys that it has written.

## Implementation notes

The conversion of a JSON text by `ptree` is a parameter. The database plugin is
the one in memory, which carries out every write; log lines are left out. The
loop ends in its third round at the latest, since a version other than zero and
one has no step.
-/

namespace Osquery.Database

open Foundation.AtomicProgram Foundation.Numeral Foundation.Separated Core.BackingStore

/-! ### The migration steps -/

def kDbEpochSuffix : String := "epoch"

def kDbCounterSuffix : String := "counter"

def kDbVersionKey : String := "results_version"

/-- Convert one value of the query results, unless it is no result. -/
def migrateQuery (ptreeToRapidJSON : String → Except String String) (key : String) :
    Prog DbOp Unit := do
  if kDbEpochSuffix.toList.isSuffixOf key.toList || kDbCounterSuffix.toList.isSuffixOf key.toList ||
      "query.".toList.isPrefixOf key.toList then
    return ()
  match ← getDatabaseValue kQueries key with
  | .error _ => return ()
  | .ok value =>
      match ptreeToRapidJSON value with
      | .error _ => return ()
      | .ok out =>
          let _ ← setDatabaseValue kQueries key out

def migrateQueries (ptreeToRapidJSON : String → Except String String) :
    List String → Prog DbOp Unit
  | [] => pure ()
  | key :: rest => do
      migrateQuery ptreeToRapidJSON key
      migrateQueries ptreeToRapidJSON rest

def migrateV0V1 (ptreeToRapidJSON : String → Except String String) :
    Prog DbOp (Except String Unit) := do
  match ← scanDatabaseKeys kQueries "" 0 with
  | .error _ => return .error "Failed to lookup legacy query data from database"
  | .ok keys =>
      migrateQueries ptreeToRapidJSON keys
      return .ok ()

/-- Replace the first occurrence of a pattern, if there is one. -/
def replaceFirst (pattern replacement : List Char) : List Char → Option (List Char)
  | [] => if pattern = [] then some replacement else none
  | c :: rest =>
      if pattern.isPrefixOf (c :: rest) then
        some (replacement ++ (c :: rest).drop pattern.length)
      else (replaceFirst pattern replacement rest).map (c :: ·)

def audit_str : String := ".audit."

/-- The key that a key with the audit publisher is renamed to. -/
def new_key (key : String) : Option String :=
  (replaceFirst audit_str.toList ".auditeventpublisher.".toList key.toList).map String.ofList

/-- Move a value to its new key. -/
def migrateKey (key : String) : Prog DbOp Unit :=
  match new_key key with
  | none => pure ()
  | some new_key => do
      match ← getDatabaseValue kEvents key with
      | .error _ => return ()
      | .ok value =>
          match ← setDatabaseValue kEvents new_key value with
          | .error _ => return ()
          | .ok () =>
              let _ ← deleteDatabaseValue kEvents key

def migrateKeys : List String → Prog DbOp Unit
  | [] => pure ()
  | key :: rest => do
      migrateKey key
      migrateKeys rest

def migrateV1V2 : Prog DbOp (Except String Unit) := do
  match ← scanDatabaseKeys kEvents "" 0 with
  | .error what => return .error ("Failed to scan event keys from database: " ++ what)
  | .ok keys =>
      migrateKeys keys
      return .ok ()

/-- The step from a version to the next one. -/
def migrate (ptreeToRapidJSON : String → Except String String) (db_version : ℤ) :
    Prog DbOp (Except String Unit) :=
  if db_version = 0 then migrateV0V1 ptreeToRapidJSON
  else if db_version = 1 then migrateV1V2
  else pure (.error "")

/-- The rounds of the upgrade. -/
def upgradeFrom (ptreeToRapidJSON : String → Except String String) (to_version : ℤ) :
    ℕ → ℤ → Prog DbOp (Except String Unit)
  | 0, _ => pure (.error "Database migration failed.")
  | rounds + 1, db_version => do
      if db_version = to_version then
        return .ok ()
      match ← migrate ptreeToRapidJSON db_version with
      | .error _ => return .error "Database migration failed."
      | .ok () =>
          match ← setDatabaseValue kPersistentSettings kDbVersionKey
              (toString (db_version + 1)) with
          | .error _ => return .error "Database migration failed."
          | .ok () => upgradeFrom ptreeToRapidJSON to_version rounds (db_version + 1)

def upgradeDatabase (ptreeToRapidJSON : String → Except String String) (to_version : ℤ) :
    Prog DbOp (Except String Unit) := do
  match ← getDatabaseValue kPersistentSettings kDbVersionKey with
  | .error _ => upgradeFrom ptreeToRapidJSON to_version 3 0
  | .ok value =>
      match stoi value with
      | .error _ => return .error "Invalid value for database version."
      | .ok db_version => upgradeFrom ptreeToRapidJSON to_version 3 db_version

/-! ### Keys of events -/

inductive Family
  | data
  | indexes
  | records
  | eid
  deriving DecidableEq, Repr

def Family.text : Family → String
  | .data => "data"
  | .indexes => "indexes"
  | .records => "records"
  | .eid => "eid"

/-- The keys of the events domain: those of a subscriber, which name its publisher, and those of
the position of a scheduled query. -/
inductive EventKey
  | subscriber (family : Family) (publisher rest : String)
  | optimize (query : String)
  | optimizeEid (query : String)

def EventKey.text : EventKey → String
  | .subscriber family publisher rest => family.text ++ "." ++ publisher ++ "." ++ rest
  | .optimize query => "optimize." ++ query
  | .optimizeEid query => "optimize_eid." ++ query

/-- The second key is the first one with the publisher audit under its new name. -/
def Renames (key new : String) : Prop :=
  ∃ family rest, key = (EventKey.subscriber family "audit" rest).text ∧
    new = (EventKey.subscriber family "auditeventpublisher" rest).text

/-- A key of the publisher audit. -/
def IsAuditKey (key : String) : Prop := ∃ new, Renames key new

theorem dot_not_mem_family (family : Family) : '.' ∉ family.text.toList := by
  cases family <;> decide

theorem Family.text_inj {family family' : Family} (h : family.text = family'.text) :
    family = family' := by
  cases family <;> cases family' <;> first | rfl | exact absurd h (by decide)

theorem toList_subscriber (family : Family) (publisher rest : String) :
    (EventKey.subscriber family publisher rest).text.toList =
      family.text.toList ++ '.' :: (publisher.toList ++ '.' :: rest.toList) := by
  simp [EventKey.text]

/-- Publisher names have no dots, so a key belongs to one publisher. -/
theorem subscriber_text_inj {family family' : Family} {publisher publisher' rest rest' : String}
    (hdot : '.' ∉ publisher.toList) (hdot' : '.' ∉ publisher'.toList)
    (h : (EventKey.subscriber family publisher rest).text =
      (EventKey.subscriber family' publisher' rest').text) :
    family = family' ∧ publisher = publisher' ∧ rest = rest' := by
  have hl := congrArg String.toList h
  rw [toList_subscriber, toList_subscriber] at hl
  obtain ⟨hfamily, hl⟩ := append_cons_inj (dot_not_mem_family family)
    (dot_not_mem_family family') hl
  obtain ⟨hpublisher, hrest⟩ := append_cons_inj hdot hdot' hl
  exact ⟨Family.text_inj (String.toList_inj.mp hfamily), String.toList_inj.mp hpublisher,
    String.toList_inj.mp hrest⟩

theorem Renames.new_inj {key key' new : String} (h : Renames key new) (h' : Renames key' new) :
    key = key' := by
  obtain ⟨family, rest, rfl, rfl⟩ := h
  obtain ⟨family', rest', rfl, hnew⟩ := h'
  obtain ⟨rfl, -, rfl⟩ := subscriber_text_inj (by decide) (by decide) hnew
  rfl

theorem Renames.key_inj {key new new' : String} (h : Renames key new) (h' : Renames key new') :
    new = new' := by
  obtain ⟨family, rest, rfl, rfl⟩ := h
  obtain ⟨family', rest', hkey, rfl⟩ := h'
  obtain ⟨rfl, -, rfl⟩ := subscriber_text_inj (by decide) (by decide) hkey
  rfl

/-- A new key is none of the publisher audit. -/
theorem Renames.not_isAuditKey {key new : String} (h : Renames key new) : ¬IsAuditKey new := by
  rintro ⟨new', h'⟩
  obtain ⟨family, rest, rfl, rfl⟩ := h
  obtain ⟨family', rest', hkey, rfl⟩ := h'
  obtain ⟨-, hname, -⟩ := subscriber_text_inj (by decide) (by decide) hkey
  exact absurd hname (by decide)

theorem Renames.ne {key new key' new' : String} (h : Renames key new) (h' : Renames key' new') :
    new ≠ key' := fun heq => h.not_isAuditKey ⟨new', heq ▸ h'⟩

/-- A key of the events domain is one of the publisher audit when it names this publisher. -/
theorem isAuditKey_text_iff {key : EventKey}
    (hdot : ∀ family publisher rest, key = .subscriber family publisher rest →
      '.' ∉ publisher.toList) :
    IsAuditKey key.text ↔ ∃ family rest, key = .subscriber family "audit" rest := by
  constructor
  · rintro ⟨-, family, rest, hkey, -⟩
    cases key with
    | subscriber family' publisher rest' =>
        obtain ⟨-, rfl, -⟩ := subscriber_text_inj (hdot _ _ _ rfl) (by decide) hkey
        exact ⟨family', rest', rfl⟩
    | optimize query =>
        have hl := congrArg String.toList hkey
        rw [toList_subscriber] at hl
        cases family <;> simp [EventKey.text, Family.text] at hl
    | optimizeEid query =>
        have hl := congrArg String.toList hkey
        rw [toList_subscriber] at hl
        cases family <;> simp [EventKey.text, Family.text] at hl
  · rintro ⟨family, rest, rfl⟩
    exact ⟨_, family, rest, rfl, rfl⟩

/-! ### Replacing the first occurrence -/

/-- A replacement takes a text apart at an occurrence of the pattern. -/
theorem replaceFirst_eq_some {pattern replacement l l' : List Char}
    (h : replaceFirst pattern replacement l = some l') :
    ∃ before after, l = before ++ (pattern ++ after) ∧ l' = before ++ (replacement ++ after) := by
  induction l generalizing l' with
  | nil =>
      rw [replaceFirst] at h
      split at h
      · rename_i hpattern
        exact ⟨[], [], by simp [hpattern], by simpa using (Option.some.inj h).symm⟩
      · exact absurd h (by simp)
  | cons c rest ih =>
      rw [replaceFirst] at h
      split at h
      · rename_i hprefix
        obtain ⟨after, hafter⟩ := List.isPrefixOf_iff_prefix.mp hprefix
        refine ⟨[], after, hafter.symm, ?_⟩
        rw [← Option.some.inj h, ← hafter, List.drop_left]
        rfl
      · obtain ⟨l₁, h₁, rfl⟩ := Option.map_eq_some_iff.mp h
        obtain ⟨before, after, rfl, rfl⟩ := ih h₁
        exact ⟨c :: before, after, rfl, rfl⟩

/-- An occurrence that no character of the text before it can begin is the first one. -/
theorem replaceFirst_append {c : Char} {before : List Char} (h : c ∉ before)
    (pattern replacement after : List Char) :
    replaceFirst (c :: pattern) replacement (before ++ (c :: pattern ++ after)) =
      some (before ++ (replacement ++ after)) := by
  induction before with
  | nil =>
      have hprefix : (c :: pattern).isPrefixOf (c :: (pattern ++ after)) = true :=
        List.isPrefixOf_iff_prefix.mpr (List.prefix_append _ _)
      rw [List.nil_append, List.cons_append, replaceFirst, if_pos hprefix, ← List.cons_append,
        List.drop_left]
      rfl
  | cons d rest ih =>
      obtain ⟨hne, hrest⟩ := not_or.mp (List.mem_cons.not.mp h)
      have hprefix :
          ¬(c :: pattern).isPrefixOf (d :: (rest ++ (c :: pattern ++ after))) = true := by
        simp [List.isPrefixOf, hne]
      rw [List.cons_append, replaceFirst, if_neg hprefix, ih hrest]
      rfl

theorem Renames.new_key_eq {key new : String} (h : Renames key new) : new_key key = some new := by
  obtain ⟨family, rest, rfl, rfl⟩ := h
  have htext : (EventKey.subscriber family "audit" rest).text.toList =
      family.text.toList ++ ('.' :: "audit.".toList ++ rest.toList) := by
    simp [EventKey.text]
  have hreplace := replaceFirst_append (dot_not_mem_family family) "audit.".toList
    ".auditeventpublisher.".toList rest.toList
  have hnew :
      String.ofList (family.text.toList ++ (".auditeventpublisher.".toList ++ rest.toList)) =
      (EventKey.subscriber family "auditeventpublisher" rest).text := by
    apply String.toList_inj.mp
    simp [EventKey.text]
  rw [new_key, htext, show audit_str.toList = '.' :: "audit.".toList by decide, hreplace,
    Option.map_some, hnew]

/-- A key is before the key that it is renamed to. -/
theorem lt_new_key {key new : String} (h : new_key key = some new) : key < new := by
  obtain ⟨l, hl, rfl⟩ := Option.map_eq_some_iff.mp h
  obtain ⟨before, after, hkey, rfl⟩ := replaceFirst_eq_some hl
  rw [String.lt_iff_toList_lt, hkey, String.toList_ofList]
  clear h hl hkey
  induction before with
  | nil =>
      have hlt : '.' < 'e' := by decide
      simp [audit_str, List.cons_lt_cons_iff, hlt]
  | cons c rest ih =>
      simp only [List.cons_append, List.cons_lt_cons_iff, true_and]
      exact Or.inr ih

end Osquery.Database
