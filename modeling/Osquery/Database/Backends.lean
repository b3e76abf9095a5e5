import Mathlib.Data.List.Infix
import Osquery.Database.Sqlite

/-!
# Three backends of one store

The in-memory, the RocksDB and the SQLite plugin implement one interface. Each
of them is compared with the abstract content of the store: along a run of
operations, every `get` returns what the content has under the key, and every
scan without a limit returns the keys of the content with the prefix. RocksDB
does this for all texts; the other two do it while no operation leaves what they
can tell apart.

## Implementation notes

A column family of RocksDB is an ordered map. `DeleteRange` does not delete the
upper end and does nothing when the bounds are reversed. The database is open
and, unless stated, not read-only.
-/

namespace Osquery.Database

open Foundation.Separated Core.BackingStore Core.Rows

/-! ### RocksDB -/

namespace RocksDb

/-- `DeleteRange`: the upper end stays. -/
def deleteRange (db : Database) (domain low high : String) : Database :=
  db.insert domain ((Ephemeral.domainOf db domain).filter fun key _ => !(low ≤ key && key < high))

def missingFamily (domain : String) : String := "Could not get column family for " ++ domain

/-- A write on a column family; in read-only mode it does nothing. -/
def write (readOnly : Bool) (db : Database) (domain : String) (f : Database → Database) :
    Except String Unit × Database :=
  if readOnly then (.ok (), db)
  else if domain ∈ kDomains then (.ok (), f db)
  else (.error (missingFamily domain), db)

def get (db : Database) (domain key : String) : Except String String :=
  if domain ∈ kDomains then
    match lookup db domain key with
    | some value => .ok value
    | none => .error "NotFound: "
  else .error (missingFamily domain)

/-- The batch is written in order. -/
def putBatch (readOnly : Bool) (db : Database) (domain : String) (data : List (String × String)) :
    Except String Unit × Database :=
  write readOnly db domain fun db => Ephemeral.putBatch db domain data

def remove (readOnly : Bool) (db : Database) (domain key : String) :
    Except String Unit × Database :=
  write readOnly db domain fun db => Ephemeral.remove db domain key

/-- The upper end of the range is deleted on its own. -/
def removeRange (readOnly : Bool) (db : Database) (domain low high : String) :
    Except String Unit × Database :=
  write readOnly db domain fun db =>
    let db := deleteRange db domain low high
    if low ≤ high then Ephemeral.remove db domain high else db

/-- The iterator visits the keys in order. -/
def scan (db : Database) (domain pre : String) (max : UInt64) : Except String (List String) :=
  if domain ∈ kDomains then
    let keys := (Ephemeral.domainOf db domain).keys.filter fun key =>
      pre.toList.isPrefixOf key.toList
    .ok (if max > 0 then keys.take max.toNat else keys)
  else .error (missingFamily domain)

end RocksDb

/-- `RocksDBDatabasePlugin` with an open database. -/
def rocksdbPlugin (readOnly : Bool) : DatabasePlugin Database where
  get := RocksDb.get
  put db d k v := RocksDb.putBatch readOnly db d [(k, v)]
  putBatch := RocksDb.putBatch readOnly
  remove := RocksDb.remove readOnly
  removeRange := RocksDb.removeRange readOnly
  scan := RocksDb.scan

theorem RocksDb.write_eq {db : Database} {domain : String} (h : domain ∈ kDomains)
    (f : Database → Database) : RocksDb.write false db domain f = (.ok (), f db) := by
  rw [RocksDb.write, if_neg Bool.false_ne_true, if_pos h]

theorem RocksDb.lookup_putBatch {domain : String} (h : domain ∈ kDomains) (db : Database)
    (data : List (String × String)) :
    lookup (RocksDb.putBatch false db domain data).2 = Contents.storeAll (lookup db) domain data := by
  rw [RocksDb.putBatch, RocksDb.write_eq h]
  exact Database.lookup_putBatch db domain data

theorem RocksDb.write_refused {db : Database} {domain : String} (h : domain ∉ kDomains)
    (f : Database → Database) :
    RocksDb.write false db domain f = (.error (missingFamily domain), db) := by
  rw [RocksDb.write, if_neg Bool.false_ne_true, if_neg h]

/-- RocksDB keeps a map under each of its column families. -/
def rocksdb : KeyValuePlugin Database where
  toDatabasePlugin := rocksdbPlugin false
  content := lookup
  hasDomain d := d ∈ kDomains
  initial := ∅
  content_initial := (ephemeral fun _ => []).content_initial
  put_eq _ _ _ _ := rfl
  putBatch_ok db d data h := congrArg Prod.fst (RocksDb.write_eq h _)
  content_putBatch db d data h := RocksDb.lookup_putBatch h db data
  removeRange_ok db d low high h := congrArg Prod.fst (RocksDb.write_eq h _)
  putBatch_refused db d data h := by
    have hrefused : RocksDb.putBatch false db d data = _ := RocksDb.write_refused h _
    exact ⟨congrArg (fun r => r.1.toOption) hrefused, congrArg Prod.snd hrefused⟩
  removeRange_refused db d low high h := by
    have hrefused : RocksDb.removeRange false db d low high = _ := RocksDb.write_refused h _
    exact ⟨congrArg (fun r => r.1.toOption) hrefused, congrArg Prod.snd hrefused⟩

/-! ### Runs over the abstract content -/

/-- An operation with its type of results. -/
abbrev AnyOperation := Σ β : Type, Operation β

/-- A call of the plugin. -/
def DatabasePlugin.perform {σ β : Type} (P : DatabasePlugin σ) (o : Operation β) (s : σ) :
    Except String β × σ :=
  match o with
  | .get d k => (P.get s d k, s)
  | .put d k v => P.put s d k v
  | .putBatch d data => P.putBatch s d data
  | .remove d k => P.remove s d k
  | .removeRange d low high => P.removeRange s d low high
  | .scan d pre max => (P.scan s d pre max, s)

/-- What an operation does to the content. -/
def Contents.apply {β : Type} (m : Contents) : Operation β → Contents
  | .get _ _ => m
  | .put d k v => m.store d k v
  | .putBatch d data => m.storeAll d data
  | .remove d k => m.erase d k
  | .removeRange d low high => m.eraseRange d low high
  | .scan _ _ _ => m

/-- The keys of a domain that start with a prefix. -/
def Contents.HasKey (m : Contents) (domain pre key : String) : Prop :=
  (m domain key).isSome = true ∧ pre.toList <+: key.toList

/-- The result that the content gives: the value of a `get` and the keys of a scan
without a limit. -/
def Answers {β : Type} (m : Contents) (o : Operation β) (r : Except String β) : Prop :=
  match o, r with
  | .get d k, r => r.toOption = m d k
  | .scan d pre max, r => max = 0 → ∃ keys, r = .ok keys ∧ ∀ k, k ∈ keys ↔ m.HasKey d pre k
  | _, _ => True

/-- Every operation of a run has the result that the content gives. -/
def Faithful (perform : (o : AnyOperation) → Database → Except String o.1 × Database) :
    Contents → Database → List AnyOperation → Prop
  | _, _, [] => True
  | m, db, o :: rest =>
      Answers m o.2 (perform o db).1 ∧ Faithful perform (m.apply o.2) (perform o db).2 rest

/-- A condition holds before every operation of a run. -/
def Along (condition : Contents → AnyOperation → Prop) : Contents → List AnyOperation → Prop
  | _, [] => True
  | m, o :: rest => condition m o ∧ Along condition (m.apply o.2) rest

/-- One operation answers as the content does and changes it as described. -/
def Simulates (perform : (o : AnyOperation) → Database → Except String o.1 × Database)
    (db : Database) (o : AnyOperation) : Prop :=
  Answers (lookup db) o.2 (perform o db).1 ∧ lookup (perform o db).2 = Contents.apply (lookup db) o.2

theorem faithful_of_simulates
    {perform : (o : AnyOperation) → Database → Except String o.1 × Database}
    {condition : Contents → AnyOperation → Prop}
    (hstep : ∀ db o, condition (lookup db) o → Simulates perform db o) {ops : List AnyOperation}
    {db : Database} (h : Along condition (lookup db) ops) :
    Faithful perform (lookup db) db ops := by
  induction ops generalizing db with
  | nil => trivial
  | cons o rest ih =>
      obtain ⟨hanswer, hafter⟩ := hstep db o h.1
      refine ⟨hanswer, ?_⟩
      rw [← hafter]
      apply ih
      rw [hafter]
      exact h.2

theorem Along.mono {condition condition' : Contents → AnyOperation → Prop}
    (himp : ∀ m o, condition m o → condition' m o) {m : Contents} {ops : List AnyOperation}
    (h : Along condition m ops) : Along condition' m ops := by
  induction ops generalizing m with
  | nil => trivial
  | cons o rest ih => exact ⟨himp m o h.1, ih h.2⟩

/-! ### One operation of each backend -/

theorem lookup_setValue_eq (db : Database) (d k v : String) :
    lookup (Ephemeral.setValue db d k v) = Contents.store (lookup db) d k v := by
  funext d' k'
  exact lookup_setValue db d k v d' k'

theorem lookup_remove_eq (db : Database) (d k : String) :
    lookup (Ephemeral.remove db d k) = Contents.erase (lookup db) d k := by
  funext d' k'
  exact lookup_remove db d k d' k'

theorem lookup_removeRange_eq (db : Database) (d low high : String) :
    lookup (Ephemeral.removeRange db d low high) = Contents.eraseRange (lookup db) d low high := by
  funext d' k'
  exact lookup_removeRange db d low high d' k'

/-- A filter of the keys that tells those with the prefix. -/
theorem mem_filter_keys {db : Database} {domain pre : String} {keep : String → Bool}
    (hkeep : ∀ k, (lookup db domain k).isSome = true →
      (keep k = true ↔ pre.toList <+: k.toList)) (k : String) :
    k ∈ (Ephemeral.domainOf db domain).keys.filter keep ↔
      Contents.HasKey (lookup db) domain pre k := by
  rw [List.mem_filter, mem_keys_iff]
  exact and_congr_right (hkeep k)

/-- The prefix of a scan has no NUL character. -/
def PlainScan {β : Type} : Operation β → Prop
  | .scan _ pre _ => NulFree pre
  | _ => True

theorem ephemeral_simulates (heap : String → List Char) (db : Database) (o : AnyOperation)
    (h : PlainScan o.2) :
    Simulates (fun o => (ephemeralPlugin heap).perform o.2) db o := by
  obtain ⟨β, o⟩ := o
  cases o with
  | get d k => exact ⟨toOption_get db d k, rfl⟩
  | put d k v => exact ⟨trivial, lookup_setValue_eq db d k v⟩
  | putBatch d data => exact ⟨trivial, lookup_putBatch db d data⟩
  | remove d k => exact ⟨trivial, lookup_remove_eq db d k⟩
  | removeRange d low high => exact ⟨trivial, lookup_removeRange_eq db d low high⟩
  | scan d pre max =>
      refine ⟨?_, rfl⟩
      rintro rfl
      refine ⟨_, rfl, mem_filter_keys fun k _ => ?_⟩
      rw [Bool.or_eq_true, reachesEnd_iff h, String.isEmpty_iff]
      refine or_iff_right_of_imp ?_
      rintro rfl
      exact List.nil_prefix

/-- Deleting the upper end completes the range. -/
theorem RocksDb.lookup_removeRange {d : String} (h : d ∈ kDomains) (db : Database)
    (low high : String) :
    lookup (RocksDb.removeRange false db d low high).2 =
      Contents.eraseRange (lookup db) d low high := by
  have hrange : ∀ d' k', lookup (RocksDb.deleteRange db d low high) d' k' =
      if d = d' ∧ low ≤ k' ∧ k' < high then none else lookup db d' k' := by
    intro d' k'
    rw [RocksDb.deleteRange, lookup_filter]
    simp only [Bool.not_eq_false', Bool.and_eq_true, decide_eq_true_eq]
  rw [RocksDb.removeRange, RocksDb.write_eq h]
  funext d' k'
  rw [Contents.eraseRange]
  dsimp only
  by_cases hle : low ≤ high
  · rw [if_pos hle, lookup_remove, hrange]
    by_cases hk : high = k'
    · subst hk
      simp [hle]
    · have hlt : k' < high ↔ k' ≤ high := ⟨le_of_lt, fun h => lt_of_le_of_ne h (Ne.symm hk)⟩
      simp [hk, hlt]
  · rw [if_neg hle, hrange]
    have hnone : ∀ k', low ≤ k' → ¬k' ≤ high := fun k' hlow hhigh => hle (hlow.trans hhigh)
    have hnone' : ∀ k', low ≤ k' → ¬k' < high := fun k' hlow hhigh => hnone k' hlow hhigh.le
    rw [if_neg fun h => hnone' k' h.2.1 h.2.2, if_neg fun h => hnone k' h.2.1 h.2.2]

theorem RocksDb.lookup_remove {d : String} (h : d ∈ kDomains) (db : Database) (k : String) :
    lookup (RocksDb.remove false db d k).2 = Contents.erase (lookup db) d k := by
  rw [RocksDb.remove, RocksDb.write_eq h]
  exact lookup_remove_eq db d k

theorem rocksdb_simulates (db : Database) (o : AnyOperation) (h : o.2.domain ∈ kDomains) :
    Simulates (fun o => (rocksdbPlugin false).perform o.2) db o := by
  obtain ⟨β, o⟩ := o
  cases o with
  | get d k =>
      refine ⟨?_, rfl⟩
      have hd : d ∈ kDomains := h
      change (RocksDb.get db d k).toOption = lookup db d k
      rw [RocksDb.get, if_pos hd]
      cases lookup db d k <;> rfl
  | put d k v => exact ⟨trivial, RocksDb.lookup_putBatch h db [(k, v)]⟩
  | putBatch d data => exact ⟨trivial, RocksDb.lookup_putBatch h db data⟩
  | remove d k => exact ⟨trivial, RocksDb.lookup_remove h db k⟩
  | removeRange d low high => exact ⟨trivial, RocksDb.lookup_removeRange h db low high⟩
  | scan d pre max =>
      refine ⟨?_, rfl⟩
      rintro rfl
      refine ⟨_, if_pos h, mem_filter_keys fun k _ => ?_⟩
      exact List.isPrefixOf_iff_prefix

/-! ### SQLite -/

theorem nulFree_append {a b : String} : NulFree (a ++ b) ↔ NulFree a ∧ NulFree b := by
  rw [NulFree, String.toList_append, List.mem_append, not_or]
  rfl

theorem nulFree_domain {domain : String} (h : domain ∈ kDomains) : NulFree domain := by
  simp only [kDomains, List.mem_cons, List.not_mem_nil, or_false] at h
  rw [NulFree]
  rcases h with rfl | rfl | rfl | rfl | rfl <;> decide

theorem nulFree_toText (n : ℕ) : NulFree (Foundation.Numeral.toText n) := fun h =>
  absurd (Foundation.Numeral.isDigit_of_mem_toText h) (by decide)

theorem nulFree_placeholders (i n : ℕ) : NulFree (placeholders i n) := by
  induction n generalizing i with
  | zero => exact List.not_mem_nil
  | succ n ih =>
      have hend : NulFree (if n = 0 then ";" else ", ") := by
        split <;> exact show '\x00' ∉ _ by decide
      simp only [placeholders, nulFree_append]
      exact ⟨⟨⟨⟨⟨⟨show '\x00' ∉ _ by decide, nulFree_toText _⟩, show '\x00' ∉ _ by decide⟩,
        nulFree_toText _⟩, show '\x00' ∉ _ by decide⟩, hend⟩, ih (i + 1)⟩

theorem cstr_selectValue {domain key : String} (hd : domain ∈ kDomains) (hkey : Literal key) :
    cstr (selectValue domain key) = selectValue domain key := by
  apply cstr_of_no_nul
  change NulFree (_ ++ (_ ++ (_ ++ (_ ++ _))))
  simp only [nulFree_append]
  exact ⟨show '\x00' ∉ _ by decide, nulFree_domain hd, show '\x00' ∉ _ by decide, hkey.2,
    show '\x00' ∉ _ by decide⟩

theorem cstr_selectKeys {domain pre : String} (hd : domain ∈ kDomains) (hpre : Literal pre)
    (max : UInt64) : cstr (selectKeys domain pre max) = selectKeys domain pre max := by
  have hlimit : NulFree (if max > 0 then " limit " ++ Foundation.Numeral.toText max.toNat
      else "") := by
    split
    · exact nulFree_append.mpr ⟨show '\x00' ∉ _ by decide, nulFree_toText _⟩
    · exact List.not_mem_nil
  apply cstr_of_no_nul
  change NulFree (_ ++ (_ ++ (_ ++ (_ ++ _ ++ (_ ++ _)))))
  simp only [nulFree_append]
  exact ⟨show '\x00' ∉ _ by decide, nulFree_domain hd, show '\x00' ∉ _ by decide,
    ⟨hpre.2, show '\x00' ∉ _ by decide⟩, show '\x00' ∉ _ by decide, hlimit⟩

theorem cstr_insertRows {domain : String} (hd : domain ∈ kDomains) (n : ℕ) :
    cstr (insertRows domain n) = insertRows domain n := by
  apply cstr_of_no_nul
  change NulFree (_ ++ (_ ++ (_ ++ _)))
  simp only [nulFree_append]
  exact ⟨show '\x00' ∉ _ by decide, nulFree_domain hd, show '\x00' ∉ _ by decide,
    nulFree_placeholders 1 n⟩

theorem cstr_around {before domain behind : String} (hbefore : NulFree before)
    (hd : domain ∈ kDomains) (hbehind : NulFree behind) :
    cstr (before ++ (domain ++ behind)) = before ++ (domain ++ behind) :=
  cstr_of_no_nul (nulFree_append.mpr
    ⟨hbefore, nulFree_append.mpr ⟨nulFree_domain hd, hbehind⟩⟩)

/-- A text that starts with the prefix matches it followed by a percent sign. -/
theorem like_of_isPrefix (pre rest : List Char) : like (pre ++ ['%']) (pre ++ rest) = true := by
  induction pre with
  | nil =>
      rw [List.nil_append, List.nil_append]
      simp only [like, if_true, List.any_eq_true]
      exact ⟨[], (List.mem_tails _ _).mpr List.nil_suffix, rfl⟩
  | cons c pre ih =>
      rw [List.cons_append, List.cons_append]
      unfold like
      by_cases hc : c = '%'
      · rw [if_pos hc, List.any_eq_true]
        exact ⟨pre ++ rest, (List.mem_tails _ _).mpr (List.suffix_cons _ _), ih⟩
      · rw [if_neg hc]
        simp [ih]

/-- What SQLite carries out as meant in a state of the store: no text ends early or
leaves its quotes, the library accepts the statement, and no key is found by a
wildcard or in other letters. -/
def Portable {β : Type} (l : SqliteLimits) (m : Contents) : Operation β → Prop
  | .get d k => Literal k ∧ (selectValue d k).utf8ByteSize ≤ l.sqlLength
  | .put d k v => 2 ≤ l.parameterCount ∧ (insertRows d 1).utf8ByteSize ≤ l.sqlLength ∧
      l.Bindable k ∧ l.Bindable v
  | .putBatch d data => 2 * data.length ≤ l.parameterCount ∧
      (insertRows d data.length).utf8ByteSize ≤ l.sqlLength ∧
      ∀ p ∈ data, l.Bindable p.1 ∧ l.Bindable p.2
  | .remove d k => (deleteKey d).utf8ByteSize ≤ l.sqlLength ∧ l.Bindable k
  | .removeRange d low high => (deleteKeys d).utf8ByteSize ≤ l.sqlLength ∧ l.Bindable low ∧
      l.Bindable high
  | .scan d pre max => Literal pre ∧ (selectKeys d pre max).utf8ByteSize ≤ l.sqlLength ∧
      (pre ++ "%").utf8ByteSize ≤ l.patternLength ∧
      (max = 0 → ∀ k, (m d k).isSome = true → like (pre ++ "%").toList k.toList = true →
        pre.toList <+: k.toList)

theorem cell_column (name value : String) : cell (column name value) name = value := by
  rw [cell, column, Std.ExtTreeMap.getD_insert_self]

theorem map_cell_column (name : String) (values : List String) :
    (values.map (column name)).map (fun row => cell row name) = values := by
  rw [List.map_map]
  exact (List.map_congr_left fun v _ => cell_column name v).trans (List.map_id _)

/-- An insertion of rows that the library accepts. -/
theorem step_insert (E : SqliteEngine) {d : String} (hd : d ∈ kDomains) (db : Database)
    {data : List (String × String)} (hcount : 2 * data.length ≤ E.limits.parameterCount)
    (hsize : (insertRows d data.length).utf8ByteSize ≤ E.limits.sqlLength)
    (hbind : ∀ p ∈ data, E.limits.Bindable p.1 ∧ E.limits.Bindable p.2) :
    lookup (stepStatus (E.step db (cstr (insertRows d data.length))
      (parameters (data.map fun p => (cstr p.1, cstr p.2))))).2 =
        Contents.storeAll (lookup db) d data := by
  have hdata : (data.map fun p => (cstr p.1, cstr p.2)) = data := by
    refine (List.map_congr_left fun p hp => ?_).trans (List.map_id data)
    rw [cstr_of_no_nul (hbind p hp).1.1, cstr_of_no_nul (hbind p hp).2.1]
    rfl
  rw [cstr_insertRows hd, hdata]
  by_cases hne : data = []
  · subst hne
    have hnothing : E.step db (insertRows d 0) [] = (false, db) := E.step_insertNothing db d
    exact congrArg (fun r => lookup (stepStatus r).2) hnothing
  · rw [E.step_insertRows db d data hd hne hcount hsize hbind]
    exact lookup_putBatch db d data

theorem sqlite_simulates (E : SqliteEngine) (db : Database) (o : AnyOperation)
    (hd : o.2.domain ∈ kDomains) (h : Portable E.limits (lookup db) o.2) :
    Simulates (fun o => sqlitePerform E o.2) db o := by
  obtain ⟨β, o⟩ := o
  cases o with
  | get d k =>
      obtain ⟨hkey, hsize⟩ := h
      replace hd : d ∈ kDomains := hd
      have hexec := E.exec_selectValue db d k hd hkey hsize
      refine ⟨?_, ?_⟩
      · change (firstValue (E.exec db (cstr (selectValue d k))).1).toOption = lookup db d k
        rw [cstr_selectValue hd hkey, hexec]
        cases lookup db d k with
        | none => rfl
        | some v => exact congrArg some (cell_column "value" v)
      · change lookup (E.exec db (cstr (selectValue d k))).2 = lookup db
        rw [cstr_selectValue hd hkey, hexec]
  | put d k v =>
      refine ⟨trivial, ?_⟩
      obtain ⟨hcount, hsize, hk, hv⟩ := h
      exact @step_insert E d hd db [(k, v)] hcount hsize
        fun p hp => List.mem_singleton.mp hp ▸ ⟨hk, hv⟩
  | putBatch d data =>
      obtain ⟨hcount, hsize, hbind⟩ := h
      exact ⟨trivial, step_insert E hd db hcount hsize hbind⟩
  | remove d k =>
      refine ⟨trivial, ?_⟩
      replace hd : d ∈ kDomains := hd
      change lookup (stepStatus (E.step db (cstr (deleteKey d)) [cstr k])).2 = _
      have hstatement : cstr (deleteKey d) = deleteKey d :=
        cstr_around (show '\x00' ∉ _ by decide) hd (show '\x00' ∉ _ by decide)
      rw [hstatement, cstr_of_no_nul h.2.1, E.step_deleteKey db d k hd h.1 h.2]
      exact lookup_remove_eq db d k
  | removeRange d low high =>
      refine ⟨trivial, ?_⟩
      obtain ⟨hsize, hlow, hhigh⟩ := h
      replace hd : d ∈ kDomains := hd
      change lookup (stepStatus (E.step db (cstr (deleteKeys d)) [cstr low, cstr high])).2 = _
      have hstatement : cstr (deleteKeys d) = deleteKeys d :=
        cstr_around (show '\x00' ∉ _ by decide) hd (show '\x00' ∉ _ by decide)
      rw [hstatement, cstr_of_no_nul hlow.1, cstr_of_no_nul hhigh.1,
        E.step_deleteKeys db d low high hd hsize hlow hhigh]
      exact lookup_removeRange_eq db d low high
  | scan d pre max =>
      obtain ⟨hpre, hsize, hpattern, hexact⟩ := h
      replace hd : d ∈ kDomains := hd
      obtain ⟨keys, hexec, hfound, hall⟩ := E.exec_selectKeys db d pre max hd hpre hsize hpattern
      refine ⟨?_, ?_⟩
      · intro hmax
        refine ⟨keys, ?_, fun k => ⟨fun hk => ?_, fun hk => ?_⟩⟩
        · change Except.ok ((E.exec db (cstr (selectKeys d pre max))).1.map
            fun row => cell row "key") = _
          rw [cstr_selectKeys hd hpre, hexec, map_cell_column]
        · exact ⟨(hfound k hk).1, hexact hmax k (hfound k hk).1 (hfound k hk).2⟩
        · obtain ⟨rest, hrest⟩ := hk.2
          apply hall hmax k hk.1
          rw [String.toList_append, ← hrest]
          exact like_of_isPrefix pre.toList rest
      · change lookup (E.exec db (cstr (selectKeys d pre max))).2 = lookup db
        rw [cstr_selectKeys hd hpre, hexec]

/-! ### Interchangeable backends -/

/-- All three backends give the results of the abstract content along a run from
the empty store. -/
def Interchangeable (heap : String → List Char) (E : SqliteEngine) (ops : List AnyOperation) :
    Prop :=
  Faithful (fun o => (ephemeralPlugin heap).perform o.2) Contents.empty ∅ ops ∧
  Faithful (fun o => (rocksdbPlugin false).perform o.2) Contents.empty ∅ ops ∧
  Faithful (fun o => sqlitePerform E o.2) Contents.empty ∅ ops

/-- Each operation is on a domain of the store. -/
def OnDomains (ops : List AnyOperation) : Prop := ∀ o ∈ ops, o.2.domain ∈ kDomains

theorem along_of_forall {condition : AnyOperation → Prop} {ops : List AnyOperation}
    (h : ∀ o ∈ ops, condition o) (m : Contents) : Along (fun _ => condition) m ops := by
  induction ops generalizing m with
  | nil => trivial
  | cons o rest ih =>
      exact ⟨h o List.mem_cons_self, ih (fun q hq => h q (List.mem_cons_of_mem _ hq)) _⟩

theorem Along.and {condition condition' : Contents → AnyOperation → Prop} {m : Contents}
    {ops : List AnyOperation} (h : Along condition m ops) (h' : Along condition' m ops) :
    Along (fun m o => condition m o ∧ condition' m o) m ops := by
  induction ops generalizing m with
  | nil => trivial
  | cons o rest ih => exact ⟨⟨h.1, h'.1⟩, ih h.2 h'.2⟩

theorem lookup_empty_store : lookup (∅ : Database) = Contents.empty :=
  (ephemeral fun _ => []).content_initial

theorem plainScan_of_portable {β : Type} {l : SqliteLimits} {m : Contents} {o : Operation β}
    (h : Portable l m o) : PlainScan o := by
  cases o with
  | scan d pre max => exact h.1.2
  | _ => trivial

/-- RocksDB needs no condition on the texts. -/
theorem rocksdb_faithful {ops : List AnyOperation} (hd : OnDomains ops) :
    Faithful (fun o => (rocksdbPlugin false).perform o.2) Contents.empty ∅ ops := by
  have hdomain := along_of_forall hd Contents.empty
  rw [← lookup_empty_store] at hdomain ⊢
  exact faithful_of_simulates (fun db o ho => rocksdb_simulates db o ho) hdomain

/-- Along every run whose operations SQLite carries out as meant, the three
backends are interchangeable. -/
theorem backends_interchangeable (heap : String → List Char) (E : SqliteEngine)
    {ops : List AnyOperation} (hd : OnDomains ops)
    (h : Along (fun m o => Portable E.limits m o.2) Contents.empty ops) :
    Interchangeable heap E ops := by
  have hdomain := along_of_forall hd Contents.empty
  rw [← lookup_empty_store] at h hdomain
  refine ⟨?_, ?_, ?_⟩
  · rw [← lookup_empty_store]
    exact faithful_of_simulates (fun db o ho => ephemeral_simulates heap db o ho)
      (h.mono fun m o => plainScan_of_portable)
  · exact rocksdb_faithful hd
  · rw [← lookup_empty_store]
    exact faithful_of_simulates (fun db o ho => sqlite_simulates E db o ho.1 ho.2)
      (hdomain.and h)

/-- A value is stored, another range is deleted, and the keys are listed. -/
def rangeRun : List AnyOperation :=
  [⟨_, .put kLogs "a" "1"⟩, ⟨_, .removeRange kLogs "b" "c"⟩, ⟨_, .scan kLogs "a" 0⟩]

theorem put_portable (key : String) (hkey : NulFree key) (hsize : key.utf8ByteSize ≤ 1000000000)
    (m : Contents) : Portable referenceSqlite.limits m (.put kLogs key "1") := by
  refine ⟨by simp only [referenceSqlite]; decide, by simp only [referenceSqlite]; decide,
    ⟨hkey, hsize⟩, show '\x00' ∉ _ by decide, ?_⟩
  simp only [referenceSqlite]
  decide

theorem backends_interchangeable_range :
    OnDomains rangeRun ∧ Interchangeable (fun _ => []) referenceSqlite rangeRun := by
  have hd : OnDomains rangeRun := by
    simp [OnDomains, rangeRun, Operation.domain, kDomains]
  refine ⟨hd, backends_interchangeable _ referenceSqlite hd
    ⟨put_portable "a" (show '\x00' ∉ _ by decide) (by decide) _, ⟨?_, ⟨?_, ?_⟩, ?_, ?_⟩,
      ⟨⟨by decide, by decide⟩, ?_, ?_, ?_⟩, trivial⟩⟩
  · simp only [referenceSqlite]
    decide
  · change '\x00' ∉ _
    decide
  · simp only [referenceSqlite]
    decide
  · change '\x00' ∉ _
    decide
  · simp only [referenceSqlite]
    decide
  · simp only [referenceSqlite]
    decide
  · simp only [referenceSqlite]
    decide
  · intro _ k hstored _
    have hk : k = "a" := by
      by_contra hne
      simp [Contents.apply, Contents.store, Contents.eraseRange, Contents.empty,
        Ne.symm hne] at hstored
    subst hk
    exact List.prefix_rfl

/-- A prefix that is a wildcard of `LIKE` finds every key. -/
theorem sqlite_scan_wildcard :
    ¬∀ (heap : String → List Char) (E : SqliteEngine) (ops : List AnyOperation),
      OnDomains ops → Interchangeable heap E ops := by
  intro h
  have hput := put_portable "a" (show '\x00' ∉ _ by decide) (by decide) (lookup ∅)
  have hafter := (sqlite_simulates referenceSqlite ∅ ⟨_, .put kLogs "a" "1"⟩
    (by simp [Operation.domain, kDomains]) hput).2
  have hrun := (h (fun _ => []) referenceSqlite
    [⟨_, .put kLogs "a" "1"⟩, ⟨_, .scan kLogs "_" 0⟩]
    (by simp [OnDomains, Operation.domain, kDomains])).2.2
  obtain ⟨keys, hkeys, hmem⟩ := hrun.2.1 rfl
  obtain ⟨found, hexec, -, hall⟩ := referenceSqlite.exec_selectKeys
    (sqlitePerform referenceSqlite (.put kLogs "a" "1") ∅).2 kLogs "_" 0 (by simp [kDomains])
    ⟨by decide, by decide⟩ (by simp only [referenceSqlite]; decide)
    (by simp only [referenceSqlite]; decide)
  have hfound : "a" ∈ found := by
    refine hall rfl "a" ?_ (by decide)
    rw [hafter]
    simp [Contents.apply, Contents.store]
  have hsame : keys = found := by
    have hscan : Except.ok ((referenceSqlite.exec
        (sqlitePerform referenceSqlite (.put kLogs "a" "1") ∅).2
        (cstr (selectKeys kLogs "_" 0))).1.map fun row => cell row "key") = Except.ok keys := hkeys
    rw [cstr_selectKeys (by simp [kDomains]) ⟨by decide, by decide⟩, hexec, map_cell_column] at hscan
    exact (Except.ok.inj hscan).symm
  have hprefix := ((hmem "a").mp (hsame ▸ hfound)).2
  exact absurd hprefix (by decide)

end Osquery.Database
