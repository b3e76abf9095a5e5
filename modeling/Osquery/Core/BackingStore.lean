import Osquery.Foundation.AtomicProgram
import Osquery.Foundation.Separated

/-!
# Backing store

The database API of the daemon over the in-memory plugin: a map of domains,
each an ordered map of keys to values. Every API call reaches the plugin as
one operation, which is the grain at which threads interleave.

## Implementation notes

The model covers a process whose database is initialized and whose registry is
not external, so no request is encoded for another process. The in-memory
plugin keeps strings and integers apart; the modelled callers store strings
only. An operator bracket on a missing domain creates it, as in the source.
-/

namespace Osquery.Core.BackingStore

open Foundation.AtomicProgram

universe u

def kPersistentSettings : String := "configurations"
def kQueries : String := "queries"
def kEvents : String := "events"

/-- One domain of the store: keys in byte order with their values. -/
abbrev Domain := Std.ExtTreeMap String String

/-- The content of `EphemeralDatabasePlugin::db_`. -/
abbrev Database := Std.ExtTreeMap String Domain

namespace Ephemeral

/-- `db_[domain]`: the domain, empty when it is missing. -/
def domainOf (db : Database) (domain : String) : Domain := db.getD domain ∅

def get (db : Database) (domain key : String) : Except String String :=
  match db[domain]? with
  | none => .error ("Domain " ++ domain ++ " does not exist")
  | some content =>
      match content[key]? with
      | none => .error ("Key " ++ key ++ " in domain " ++ domain ++ " does not exist")
      | some value => .ok value

def setValue (db : Database) (domain key value : String) : Database :=
  db.insert domain ((domainOf db domain).insert key value)

def putBatch (db : Database) (domain : String) (data : List (String × String)) : Database :=
  data.foldl (fun db p => setValue db domain p.1 p.2) db

def remove (db : Database) (domain key : String) : Database :=
  db.insert domain ((domainOf db domain).erase key)

/-- Both ends of the range are removed. -/
def removeRange (db : Database) (domain low high : String) : Database :=
  db.insert domain ((domainOf db domain).filter fun key _ => !(low ≤ key && key ≤ high))

/-- The keys with a prefix in key order, at most `max` of them when `max` is
positive. -/
def scan (db : Database) (domain pre : String) (max : ℕ) : List String :=
  let keys := (domainOf db domain).keys.filter fun key => pre.toList.isPrefixOf key.toList
  if max > 0 then keys.take max else keys

end Ephemeral

/-- The operations that reach the database plugin. -/
inductive DbOp : Type → Type
  | get (domain key : String) : DbOp (Except String String)
  | putBatch (domain : String) (data : List (String × String)) : DbOp (Except String Unit)
  | remove (domain key : String) : DbOp (Except String Unit)
  | removeRange (domain low high : String) : DbOp (Except String Unit)
  | scan (domain pre : String) (max : ℕ) : DbOp (Except String (List String))

/-- The in-memory plugin succeeds on every write. -/
def DbOp.exec {β : Type} : DbOp β → Database → β × Database
  | .get domain key, db => (Ephemeral.get db domain key, db)
  | .putBatch domain data, db => (.ok (), Ephemeral.putBatch db domain data)
  | .remove domain key, db => (.ok (), Ephemeral.remove db domain key)
  | .removeRange domain low high, db => (.ok (), Ephemeral.removeRange db domain low high)
  | .scan domain pre max, db => (.ok (Ephemeral.scan db domain pre max), db)

instance : Executes DbOp Database := ⟨DbOp.exec⟩

/-- Operations that include those of the database. -/
class HasDatabase (ι : Type → Type u) where
  inject : {β : Type} → DbOp β → ι β

instance : HasDatabase DbOp := ⟨id⟩

section Api

variable {ι : Type → Type u} [HasDatabase ι]

/-- Every API call refuses the empty domain before it reaches the plugin. -/
def request {β : Type} (domain : String) (o : DbOp (Except String β)) : Prog ι (Except String β) :=
  if domain = "" then pure (.error "Missing domain") else Prog.perform (HasDatabase.inject o)

def getDatabaseValue (domain key : String) : Prog ι (Except String String) :=
  request domain (.get domain key)

def setDatabaseBatch (domain : String) (data : List (String × String)) :
    Prog ι (Except String Unit) :=
  request domain (.putBatch domain data)

def setDatabaseValue (domain key value : String) : Prog ι (Except String Unit) :=
  setDatabaseBatch domain [(key, value)]

def deleteDatabaseValue (domain key : String) : Prog ι (Except String Unit) :=
  request domain (.remove domain key)

def deleteDatabaseRange (domain low high : String) : Prog ι (Except String Unit) :=
  request domain (.removeRange domain low high)

def scanDatabaseKeys (domain pre : String) (max : ℕ) : Prog ι (Except String (List String)) :=
  request domain (.scan domain pre max)

/-- A read whose status is ignored: the out-parameter stays empty on failure. -/
def readValue (domain key : String) : Prog ι String :=
  (fun r => r.toOption.getD "") <$> getDatabaseValue domain key

end Api

/-! ### What is stored under a key -/

/-- The value stored under a key of a domain. -/
def lookup (db : Database) (domain key : String) : Option String :=
  (Ephemeral.domainOf db domain)[key]?

theorem toOption_get (db : Database) (domain key : String) :
    (Ephemeral.get db domain key).toOption = lookup db domain key := by
  rw [Ephemeral.get, lookup, Ephemeral.domainOf, Std.ExtTreeMap.getD_eq_getD_getElem?]
  cases h : db[domain]? with
  | none => simp [Except.toOption]
  | some content =>
      simp only [Option.getD_some]
      cases hk : content[key]? <;> rfl

theorem get_eq_ok_iff (db : Database) (domain key value : String) :
    Ephemeral.get db domain key = .ok value ↔ lookup db domain key = some value := by
  rw [← toOption_get]
  cases Ephemeral.get db domain key <;> simp [Except.toOption]

theorem domainOf_insert (db : Database) (d : String) (m : Domain) (d' : String) :
    Ephemeral.domainOf (db.insert d m) d' = if d = d' then m else Ephemeral.domainOf db d' := by
  simp only [Ephemeral.domainOf, Std.ExtTreeMap.getD_insert, Std.compare_eq_iff_eq]

@[simp] theorem lookup_setValue (db : Database) (d k v d' k' : String) :
    lookup (Ephemeral.setValue db d k v) d' k' =
      if d = d' ∧ k = k' then some v else lookup db d' k' := by
  simp only [lookup, Ephemeral.setValue, domainOf_insert]
  by_cases hd : d = d'
  · subst hd
    simp [Std.ExtTreeMap.getElem?_insert]
  · simp [hd]

@[simp] theorem putBatch_nil (db : Database) (d : String) : Ephemeral.putBatch db d [] = db := rfl

@[simp] theorem putBatch_cons (db : Database) (d k v : String) (data : List (String × String)) :
    Ephemeral.putBatch db d ((k, v) :: data) =
      Ephemeral.putBatch (Ephemeral.setValue db d k v) d data := rfl

/-- A batch leaves every key alone that it does not name. -/
theorem lookup_putBatch_of_forall_ne (db : Database) (d : String) (data : List (String × String))
    (d' k' : String) (h : d = d' → ∀ p ∈ data, p.1 ≠ k') :
    lookup (Ephemeral.putBatch db d data) d' k' = lookup db d' k' := by
  induction data generalizing db with
  | nil => rfl
  | cons p rest ih =>
      rw [putBatch_cons, ih _ fun hd q hq => h hd q (List.mem_cons_of_mem _ hq), lookup_setValue]
      have hne : ¬(d = d' ∧ p.1 = k') := fun hp => h hp.1 p List.mem_cons_self hp.2
      simp [hne]

/-- A batch that names every key once leaves the values that it gives. -/
theorem lookup_putBatch_of_mem {db : Database} {d : String} {data : List (String × String)}
    (hnodup : data.Pairwise fun p q => p.1 ≠ q.1) {p : String × String} (hp : p ∈ data) :
    lookup (Ephemeral.putBatch db d data) d p.1 = some p.2 := by
  induction data generalizing db with
  | nil => exact absurd hp List.not_mem_nil
  | cons first rest ih =>
      obtain ⟨hfirst, hrest⟩ := List.pairwise_cons.mp hnodup
      rw [putBatch_cons]
      rcases List.mem_cons.mp hp with rfl | hp
      · rw [lookup_putBatch_of_forall_ne _ _ _ _ _ fun _ q hq => (hfirst q hq).symm,
          lookup_setValue, if_pos ⟨rfl, rfl⟩]
      · exact ih hrest hp

/-- A batch leaves a value under every key that it names. -/
theorem isSome_lookup_putBatch (db : Database) (d : String) (data : List (String × String))
    (key : String) :
    (lookup (Ephemeral.putBatch db d data) d key).isSome = true ↔
      key ∈ data.map Prod.fst ∨ (lookup db d key).isSome = true := by
  induction data generalizing db with
  | nil => simp
  | cons p rest ih =>
      rw [putBatch_cons, ih, lookup_setValue, List.map_cons, List.mem_cons]
      by_cases hk : p.1 = key
      · simp [hk]
      · simp [hk, Ne.symm hk]

@[simp] theorem lookup_remove (db : Database) (d k d' k' : String) :
    lookup (Ephemeral.remove db d k) d' k' =
      if d = d' ∧ k = k' then none else lookup db d' k' := by
  simp only [lookup, Ephemeral.remove, domainOf_insert]
  by_cases hd : d = d'
  · subst hd
    simp [Std.ExtTreeMap.getElem?_erase]
  · simp [hd]

/-- Removing several keys of a domain. -/
theorem lookup_foldl_remove (db : Database) (d : String) (keys : List String) (d' k' : String) :
    lookup (keys.foldl (fun db key => Ephemeral.remove db d key) db) d' k' =
      if d = d' ∧ k' ∈ keys then none else lookup db d' k' := by
  induction keys generalizing db with
  | nil => simp
  | cons first keys ih =>
      rw [List.foldl_cons, ih, lookup_remove]
      by_cases hkeys : d = d' ∧ k' ∈ keys
      · rw [if_pos hkeys, if_pos ⟨hkeys.1, List.mem_cons_of_mem _ hkeys.2⟩]
      · rw [if_neg hkeys]
        apply if_congr _ rfl rfl
        apply and_congr_right
        intro hd
        have hnot : k' ∉ keys := fun h => hkeys ⟨hd, h⟩
        rw [List.mem_cons, or_iff_left hnot, eq_comm]

/-- Keeping the keys of a domain that pass a test. -/
theorem lookup_filter (db : Database) (d : String) (keep : String → Bool) (d' k' : String) :
    lookup (db.insert d ((Ephemeral.domainOf db d).filter fun key _ => keep key)) d' k' =
      if d = d' ∧ keep k' = false then none else lookup db d' k' := by
  simp only [lookup, domainOf_insert]
  by_cases hd : d = d'
  · subst hd
    simp only [if_true, true_and]
    rw [Std.ExtTreeMap.getElem?_filter']
    cases hk : keep k' <;> cases (Ephemeral.domainOf db d)[k']? <;>
      simp [Option.filter]
  · simp [hd]

theorem lookup_removeRange (db : Database) (d low high d' k' : String) :
    lookup (Ephemeral.removeRange db d low high) d' k' =
      if d = d' ∧ low ≤ k' ∧ k' ≤ high then none else lookup db d' k' := by
  rw [Ephemeral.removeRange, lookup_filter]
  simp only [Bool.not_eq_false', Bool.and_eq_true, decide_eq_true_eq]

theorem mem_keys_iff (db : Database) (d k : String) :
    k ∈ (Ephemeral.domainOf db d).keys ↔ (lookup db d k).isSome = true := by
  rw [Std.ExtTreeMap.mem_keys, lookup, Std.ExtTreeMap.isSome_getElem?_iff_mem]

/-! ### Scans and the number of keys -/

theorem scan_sublist (db : Database) (d pre : String) (max : ℕ) :
    (Ephemeral.scan db d pre max).Sublist (Ephemeral.domainOf db d).keys := by
  rw [Ephemeral.scan]
  split
  · exact (List.take_sublist _ _).trans List.filter_sublist
  · exact List.filter_sublist

theorem nodup_scan (db : Database) (d pre : String) (max : ℕ) :
    (Ephemeral.scan db d pre max).Nodup :=
  (scan_sublist db d pre max).nodup Std.ExtTreeMap.nodup_keys

/-- An unlimited scan finds the stored keys with the prefix. -/
theorem mem_scan_zero {db : Database} {d pre key : String} :
    key ∈ Ephemeral.scan db d pre 0 ↔
      (lookup db d key).isSome = true ∧ pre.toList <+: key.toList := by
  simp only [Ephemeral.scan, gt_iff_lt, lt_self_iff_false, if_false, List.mem_filter,
    mem_keys_iff, List.isPrefixOf_iff_prefix]

/-- What follows the prefix in the keys that are found. -/
theorem mem_map_drop_scan {db : Database} {d pre name : String} :
    name ∈ (Ephemeral.scan db d pre 0).map (fun key => String.ofList (key.toList.drop pre.length)) ↔
      (lookup db d (pre ++ name)).isSome := by
  rw [List.mem_map]
  constructor
  · rintro ⟨key, hkey, rfl⟩
    obtain ⟨hsome, hprefix⟩ := mem_scan_zero.mp hkey
    rw [Foundation.Separated.append_ofList_drop hprefix]
    exact hsome
  · intro h
    refine ⟨pre ++ name, mem_scan_zero.mpr ⟨h, ?_⟩, ?_⟩
    · rw [String.toList_append]
      exact List.prefix_append _ _
    · exact Foundation.Separated.ofList_drop_append pre name

/-- Every scan finds stored keys with the prefix only. -/
theorem of_mem_scan {db : Database} {d pre key : String} {max : ℕ}
    (h : key ∈ Ephemeral.scan db d pre max) :
    (lookup db d key).isSome = true ∧ pre.toList <+: key.toList := by
  rw [Ephemeral.scan] at h
  split at h
  · exact mem_scan_zero.mp (List.mem_of_mem_take h)
  · exact mem_scan_zero.mp h

theorem length_keys_setValue {db : Database} {d k : String} (v : String)
    (h : lookup db d k = none) :
    (Ephemeral.domainOf (Ephemeral.setValue db d k v) d).keys.length =
      (Ephemeral.domainOf db d).keys.length + 1 := by
  have hnot : (Ephemeral.domainOf db d).contains k = false := by
    rw [Std.ExtTreeMap.contains_eq_isSome_getElem?]
    exact congrArg Option.isSome h
  rw [Ephemeral.setValue, domainOf_insert, if_pos rfl, Std.ExtTreeMap.length_keys,
    Std.ExtTreeMap.length_keys, Std.ExtTreeMap.size_insert, hnot]
  rfl

theorem length_keys_remove {db : Database} {d k : String} (h : (lookup db d k).isSome = true) :
    (Ephemeral.domainOf (Ephemeral.remove db d k) d).keys.length =
      (Ephemeral.domainOf db d).keys.length - 1 := by
  have hmem : (Ephemeral.domainOf db d).contains k = true := by
    rw [Std.ExtTreeMap.contains_eq_isSome_getElem?]
    exact h
  rw [Ephemeral.remove, domainOf_insert, if_pos rfl, Std.ExtTreeMap.length_keys,
    Std.ExtTreeMap.length_keys, Std.ExtTreeMap.size_erase, hmem]
  rfl

/-! ### Calls with a domain -/

/-- A call with a domain reaches the plugin. -/
theorem run_request {β : Type} {domain : String} (h : domain ≠ "") (o : DbOp (Except String β))
    (db : Database) : (request domain o : Prog DbOp (Except String β)).run db = o.exec db := by
  rw [request, if_neg h]
  rfl

theorem run_readValue_of_ne_empty {domain : String} (h : domain ≠ "") (key : String)
    (db : Database) :
    (readValue domain key : Prog DbOp String).run db = ((lookup db domain key).getD "", db) := by
  rw [readValue, Prog.run_map, getDatabaseValue, run_request h, ← toOption_get]
  rfl

/-! ### Programs that write some keys only -/

/-- Reads are free; a write names keys of the list in the domain. -/
def DbOp.WritesWithin (domain : String) (keys : List String) : (β : Type) → DbOp β → Prop
  | _, .get _ _ => True
  | _, .scan _ _ _ => True
  | _, .putBatch d data => d = domain ∧ ∀ p ∈ data, p.1 ∈ keys
  | _, .remove d key => d = domain ∧ key ∈ keys
  | _, .removeRange _ _ _ => False

/-- A program leaves alone what is outside its domain and its list of keys. -/
theorem lookup_run_of_outside {α : Type} {domain other : String} {keys : List String}
    {p : Prog DbOp α} (hp : p.Only (DbOp.WritesWithin domain keys)) {key : String}
    (hk : other = domain → key ∉ keys) (db : Database) :
    lookup (p.run db).2 other key = lookup db other key := by
  refine Prog.run_invariant (fun s => lookup s other key = lookup db other key) ?_ hp rfl
  intro β o s ho hs
  cases o with
  | get d k => exact hs
  | scan d pre max => exact hs
  | putBatch d data =>
      refine (lookup_putBatch_of_forall_ne s d data other key ?_).trans hs
      rintro rfl p hp rfl
      exact hk ho.1 (ho.2 p hp)
  | remove d k =>
      refine (lookup_remove s d k other key).trans ?_
      rw [if_neg, hs]
      rintro ⟨rfl, rfl⟩
      exact hk ho.1 ho.2
  | removeRange d low high => exact ho.elim

/-- A key outside the list keeps its value, whatever the program does. -/
theorem lookup_run_of_writesWithin {α : Type} {domain : String} {keys : List String}
    {p : Prog DbOp α} (hp : p.Only (DbOp.WritesWithin domain keys)) {key : String}
    (hk : key ∉ keys) (db : Database) :
    lookup (p.run db).2 domain key = lookup db domain key :=
  lookup_run_of_outside hp (fun _ => hk) db

end Osquery.Core.BackingStore
