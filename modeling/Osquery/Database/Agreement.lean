import Osquery.Database.TypedStores
import Osquery.Foundation.Simulation

/-!
# The two stores compared

Both databases are opened empty and take the same calls, no key of which is used for strings
and for integers. They give the same results, which are those of the values last put, as long
as RocksDB reports no error, nothing is put in batches, and no string is read that has the
length and the tag of an integer. The first call that breaks this is answered differently.

## Implementation notes

Errors are compared by their codes, and lists of keys up to their order. A value was stored
when no call of RocksDB reported an error.
-/

namespace Osquery.Database

open Core.BackingStore Foundation.BigEndian Foundation.Simulation

/-! ### Calls and their results -/

inductive StoreCall
  | putString (domain key : String) (value : Bytes)
  | putInt32 (domain key : String) (value : Int32)
  | putStringsUnsafe (domain : String) (data : List (String × Bytes))
  | getString (domain key : String)
  | getInt32 (domain key : String)
  | getKeys (domain pre : String)

inductive StoreResult
  | success
  | string (value : Bytes)
  | int32 (value : Int32)
  | keys (names : List String)
  deriving DecidableEq

/-- The kinds of values that a key is used for. -/
inductive Kind
  | string
  | int32
  deriving DecidableEq

def DataType.kind : DataType → Kind
  | string _ => .string
  | int32 _ => .int32

/-- The bytes that stand for a value in RocksDB. -/
def DataType.buffer : DataType → Bytes
  | string value => value
  | int32 value => int32Buffer value

/-- The value that was last put under every key. -/
abbrev StoreContents := String → String → Option DataType

def StoreContents.store (m : StoreContents) (domain key : String) (value : DataType) :
    StoreContents :=
  fun d k => if d = domain ∧ k = key then some value else m d k

namespace StoreCall

def domain : StoreCall → String
  | putString domain _ _ => domain
  | putInt32 domain _ _ => domain
  | putStringsUnsafe domain _ => domain
  | getString domain _ => domain
  | getInt32 domain _ => domain
  | getKeys domain _ => domain

/-- The call uses every key for what it is used for. -/
def Typed (kind : String → String → Kind) : StoreCall → Prop
  | putString domain key _ => kind domain key = .string
  | putInt32 domain key _ => kind domain key = .int32
  | putStringsUnsafe domain data => ∀ pair ∈ data, kind domain pair.1 = .string
  | getString domain key => kind domain key = .string
  | getInt32 domain key => kind domain key = .int32
  | getKeys _ _ => True

def onRocksdb (d : RocksdbDatabase) (u : Surroundings) :
    StoreCall → Outcome StoreResult × RocksdbDatabase
  | putString domain key value =>
      let r := d.putString u domain key value
      ((Outcome.of r.1).map fun _ => .success, r.2)
  | putInt32 domain key value =>
      let r := d.putInt32 u domain key value
      ((Outcome.of r.1).map fun _ => .success, r.2)
  | putStringsUnsafe domain data =>
      let r := d.putStringsUnsafe u domain data
      (r.1.map fun _ => .success, r.2)
  | getString domain key =>
      let r := d.getString u domain key
      ((Outcome.of r.1).map .string, r.2)
  | getInt32 domain key =>
      let r := d.getInt32 u domain key
      ((Outcome.of r.1).map .int32, r.2)
  | getKeys domain pre => ((Outcome.of (d.getKeys domain pre)).map .keys, d)

def onInMemory (d : InMemoryDatabase) (u : Surroundings) :
    StoreCall → Outcome StoreResult × InMemoryDatabase
  | putString domain key value =>
      let r := d.putString domain key value
      ((Outcome.of r.1).map fun _ => .success, r.2)
  | putInt32 domain key value =>
      let r := d.putInt32 domain key value
      ((Outcome.of r.1).map fun _ => .success, r.2)
  | putStringsUnsafe domain data =>
      let r := d.putStringsUnsafe domain data
      ((Outcome.of r.1).map fun _ => .success, r.2)
  | getString domain key => ((Outcome.of (d.getString domain key)).map .string, d)
  | getInt32 domain key => ((Outcome.of (d.getInt32 domain key)).map .int32, d)
  | getKeys domain pre => ((Outcome.of (d.getKeys u domain pre)).map .keys, d)

/-- What a call makes of the contents. -/
def apply (m : StoreContents) : StoreCall → StoreContents
  | putString domain key value => m.store domain key (.string value)
  | putInt32 domain key value => m.store domain key (.int32 value)
  | putStringsUnsafe domain data =>
      data.foldl (fun m pair => m.store domain pair.1 (.string pair.2)) m
  | getString _ _ => m
  | getInt32 _ _ => m
  | getKeys _ _ => m

end StoreCall

/-! ### What the results are compared with -/

def Outcome.errorCode {α : Type} : Outcome α → Option DatabaseError
  | .error e => some e.code
  | _ => none

/-- The same values or the same error. -/
def Outcome.Same : Outcome StoreResult → Outcome StoreResult → Prop
  | .value (.keys names), .value (.keys names') => names.Perm names'
  | .value result, .value result' => result = result'
  | .error e, .error e' => e.code = e'.code
  | _, _ => False

/-- A get returns the value of the contents, or that the key was not found. -/
def Outcome.Returns (r : Outcome StoreResult) (toResult : DataType → Option StoreResult)
    (value : Option DataType) : Prop :=
  match value.bind toResult with
  | some result => r = .value result
  | none => r.errorCode = some .keyNotFound

def DataType.stringResult (value : DataType) : Option StoreResult := value.getString?.map .string

def DataType.int32Result (value : DataType) : Option StoreResult := value.getInt32?.map .int32

/-- The keys of a domain with a prefix, each of them once. -/
def StoreContents.Lists (m : StoreContents) (domain pre : String) (names : List String) : Prop :=
  names.Nodup ∧
    ∀ key, key ∈ names ↔ (m domain key).isSome ∧ pre.toList.isPrefixOf key.toList

namespace StoreCall

/-- The result that the contents call for. -/
def Answers (m : StoreContents) (r : Outcome StoreResult) : StoreCall → Prop
  | putString _ _ _ => r = .value .success
  | putInt32 _ _ _ => r = .value .success
  | putStringsUnsafe _ _ => r = .value .success
  | getString domain key => r.Returns DataType.stringResult (m domain key)
  | getInt32 domain key => r.Returns DataType.int32Result (m domain key)
  | getKeys domain pre => ∃ names, r = .value (.keys names) ∧ m.Lists domain pre names

/-- For a put: no call of RocksDB reported an error. -/
def Stored (u : Surroundings) : StoreCall → Option Prop
  | putString _ _ _ => some (u.report = .ok)
  | putInt32 _ _ _ => some (u.report = .ok)
  | putStringsUnsafe _ data => some ((∀ pair ∈ data, u.batchPut pair = .ok) ∧ u.report = .ok)
  | getString _ _ => none
  | getInt32 _ _ => none
  | getKeys _ _ => none

end StoreCall

/-- The two databases, and what was put into them. -/
structure Databases where
  rocksdb : RocksdbDatabase
  inMemory : InMemoryDatabase
  contents : StoreContents

namespace Databases

def opened : Databases where
  rocksdb := .opened
  inMemory := .opened
  contents _ _ := none

def step (dbs : Databases) (entry : StoreCall × Surroundings) : Databases where
  rocksdb := (entry.1.onRocksdb dbs.rocksdb entry.2).2
  inMemory := (entry.1.onInMemory dbs.inMemory entry.2).2
  contents := entry.1.apply dbs.contents

/-- The databases agree on a call. -/
structure Agree (dbs : Databases) (entry : StoreCall × Surroundings) : Prop where
  same : (entry.1.onRocksdb dbs.rocksdb entry.2).1.Same (entry.1.onInMemory dbs.inMemory entry.2).1
  answers : entry.1.Answers dbs.contents (entry.1.onRocksdb dbs.rocksdb entry.2).1
  stored : ∀ written ∈ entry.1.Stored entry.2,
    (entry.1.onRocksdb dbs.rocksdb entry.2).1 = .value .success ↔ written

end Databases

/-- RocksDB reports no error, nothing is put in a batch, and a string that is read does not look
like an integer. -/
def Plain (m : StoreContents) (entry : StoreCall × Surroundings) : Prop :=
  match entry.1 with
  | .putString _ _ _ => entry.2.report = .ok
  | .putInt32 _ _ _ => entry.2.report = .ok
  | .putStringsUnsafe _ _ => False
  | .getString domain key => entry.2.report = .ok ∧
      ∀ value, m domain key = some (.string value) → validateInt32StorageBuffer value = false
  | .getInt32 _ _ => entry.2.report = .ok
  | .getKeys _ _ => True

/-! ### Integers as bytes -/

theorem validateInt32StorageBuffer_int32Buffer (value : Int32) :
    validateInt32StorageBuffer (int32Buffer value) = true := by
  have hdrop : (int32Buffer value).drop 4 = bytes 2 kIntTag :=
    List.drop_left' (length_bytes 4 _)
  have htag : Foundation.BigEndian.value (bytes 2 kIntTag) = kIntTag :=
    value_bytes_of_lt (by decide)
  rw [validateInt32StorageBuffer, hdrop, htag, int32Buffer, List.length_append, length_bytes,
    length_bytes]
  rfl

/-- An integer is read back from the bytes of it. -/
theorem ofInt32Buffer_int32Buffer (value : Int32) : ofInt32Buffer (int32Buffer value) = value := by
  have htake : (int32Buffer value).take 4 = bytes 4 value.toUInt32.toNat :=
    List.take_left' (length_bytes 4 _)
  have hlt : value.toUInt32.toNat < 256 ^ 4 := value.toUInt32.toNat_lt
  rw [ofInt32Buffer, htake, value_bytes_of_lt hlt, UInt32.ofNat_toNat]
  exact Int32.toInt32_toUInt32 value

/-! ### Results that the contents determine -/

/-- What returns a value is the same as whatever else returns it. -/
theorem Outcome.Returns.same {r r' : Outcome StoreResult} {toResult : DataType → Option StoreResult}
    {value : Option DataType} (h : r.Returns toResult value) (h' : r'.Returns toResult value)
    (hkeys : ∀ value names, toResult value ≠ some (.keys names)) : r.Same r' := by
  rw [Outcome.Returns] at h h'
  cases hresult : value.bind toResult with
  | none =>
      rw [hresult] at h h'
      cases r with
      | error e =>
          cases r' with
          | error e' => exact (Option.some.inj h).trans (Option.some.inj h').symm
          | value => cases h'
          | thrown => cases h'
      | value => cases h
      | thrown => cases h
  | some result =>
      rw [hresult] at h h'
      obtain ⟨stored, -, hstored⟩ := Option.bind_eq_some_iff.mp hresult
      cases h
      cases h'
      cases result with
      | keys names => exact absurd hstored (hkeys stored names)
      | success => rfl
      | string => rfl
      | int32 => rfl

/-- Lists of the same keys are the same up to the order. -/
theorem StoreContents.Lists.perm {m : StoreContents} {domain pre : String}
    {names names' : List String} (h : m.Lists domain pre names) (h' : m.Lists domain pre names') :
    names.Perm names' := by
  rw [List.perm_ext_iff_of_nodup h.1 h'.1]
  intro key
  rw [h.2, h'.2]

/-! ### The databases hold the contents -/

namespace Databases

/-- Both databases are open and hold the contents. -/
structure Holds (kind : String → String → Kind) (dbs : Databases) : Prop where
  calm : dbs.rocksdb.in_panic_ = false
  isSome : dbs.rocksdb.db_.isSome
  handles : ∀ domain ∈ kDomains, domain ∈ dbs.rocksdb.handles_map_
  family : ∀ domain ∈ kDomains, ∀ key,
    (dbs.rocksdb.family domain)[key]? = (dbs.contents domain key).map DataType.buffer
  is_open : dbs.inMemory.is_open_ = true
  storage : ∀ domain ∈ kDomains, ∃ storage : InMemoryStorage,
    dbs.inMemory.storage_[domain]? = some storage ∧
      ∀ key : String, storage[key]? = dbs.contents domain key
  typed : ∀ domain key, ∀ value ∈ dbs.contents domain key, value.kind = kind domain key

theorem holds_opened (kind : String → String → Kind) : opened.Holds kind where
  calm := rfl
  isSome := rfl
  handles domain h := List.mem_cons_of_mem _ h
  family domain _ key := by
    have hfamily : RocksdbDatabase.opened.family domain = ∅ := by
      rw [RocksdbDatabase.family, RocksdbDatabase.opened, Option.getD_some,
        Std.ExtTreeMap.getD_empty]
    rw [opened, hfamily, Std.ExtTreeMap.getElem?_empty]
    rfl
  is_open := rfl
  storage domain h := by
    refine ⟨∅, ?_, fun key => Std.ExtTreeMap.getElem?_empty⟩
    revert domain
    decide +kernel
  typed domain key value h := by
    cases h

section Calls

variable {kind : String → String → Kind} {dbs : Databases} {u : Surroundings} {domain : String}

theorem Holds.getHandle (h : dbs.Holds kind) (hdomain : domain ∈ kDomains) :
    dbs.rocksdb.getHandle domain = .ok domain := by
  have hopen : ¬dbs.rocksdb.db_.isNone := by
    rw [Option.isNone_iff_eq_none, ← ne_eq, Option.ne_none_iff_isSome]
    exact h.isSome
  rw [RocksdbDatabase.getHandle, h.calm, if_neg Bool.false_ne_true, if_neg hopen,
    if_neg (not_not.mpr (h.handles domain hdomain))]

theorem Holds.not_closed (h : dbs.Holds kind) : ¬(!dbs.inMemory.is_open_) = true := by
  rw [h.is_open]
  exact Bool.false_ne_true

/-! ### Reading -/

theorem Holds.getRawBytes (h : dbs.Holds kind) (hdomain : domain ∈ kDomains)
    (hreport : u.report = .ok) (key : String) :
    dbs.rocksdb.getRawBytes u domain key =
      (((dbs.contents domain key).map DataType.buffer).elim
        (.error ⟨.keyNotFound, "Value not found", none⟩) .ok, dbs.rocksdb) := by
  rw [RocksdbDatabase.getRawBytes, h.getHandle hdomain]
  simp only [RocksdbDatabase.getRawBytesInternal, hreport, h.family domain hdomain]
  cases dbs.contents domain key <;> rfl

/-- An error of RocksDB is not that the key was not found. -/
theorem Holds.getRawBytes_of_ne (h : dbs.Holds kind) (hdomain : domain ∈ kDomains)
    (hreport : u.report ≠ .ok) (key : String) :
    ∃ e d, dbs.rocksdb.getRawBytes u domain key = (.error e, d) ∧ e.code ≠ .keyNotFound := by
  rw [RocksdbDatabase.getRawBytes, h.getHandle hdomain]
  simp only [RocksdbDatabase.getRawBytesInternal]
  cases hu : u.report with
  | ok => exact absurd hu hreport
  | corruption status => exact ⟨_, _, rfl, DatabaseError.noConfusion⟩
  | failed status => exact ⟨_, _, rfl, DatabaseError.noConfusion⟩

/-- What the database in memory returns. -/
theorem Holds.returns_getValue (h : dbs.Holds kind) (hdomain : domain ∈ kDomains) {α : Type}
    (cast : DataType → Option α) (typeName : String) (toResult : α → StoreResult) (key : String) :
    ((Outcome.of (dbs.inMemory.getValue cast typeName domain key)).map toResult).Returns
      (fun value => (cast value).map toResult) (dbs.contents domain key) := by
  obtain ⟨storage, hstorage, hvalues⟩ := h.storage domain hdomain
  rw [InMemoryDatabase.getValue, if_neg h.not_closed, hstorage]
  simp only [hvalues key]
  cases dbs.contents domain key with
  | none => rfl
  | some value =>
      simp only [Outcome.Returns, Option.bind_some]
      cases cast value <;> rfl

theorem Holds.returns_getString (h : dbs.Holds kind) (hdomain : domain ∈ kDomains) {key : String}
    (htyped : kind domain key = .string) :
    ((Outcome.of (dbs.rocksdb.getString u domain key).1).map .string).Returns
        DataType.stringResult (dbs.contents domain key) ↔
      Plain dbs.contents (.getString domain key, u) := by
  by_cases hreport : u.report = .ok
  · rw [RocksdbDatabase.getString, h.getRawBytes hdomain hreport, Plain]
    cases hvalue : dbs.contents domain key with
    | none =>
        apply iff_of_true rfl
        refine ⟨hreport, ?_⟩
        intro value heq
        cases hvalue.symm.trans heq
    | some stored =>
        cases stored with
        | int32 value =>
            have hkind := h.typed domain key _ hvalue
            rw [htyped] at hkind
            cases hkind
        | string value =>
            simp only [Option.map_some, Option.elim_some, DataType.buffer]
            cases hvalid : validateInt32StorageBuffer value with
            | true =>
                apply iff_of_false
                · intro hreturns
                  cases hreturns
                · intro hplain
                  cases hvalid.symm.trans (hplain.2 value hvalue)
            | false =>
                apply iff_of_true rfl
                refine ⟨hreport, ?_⟩
                intro value' heq
                cases hvalue.symm.trans heq
                exact hvalid
  · obtain ⟨e, d, hraw, hcode⟩ := h.getRawBytes_of_ne hdomain hreport key
    apply iff_of_false
    · rw [RocksdbDatabase.getString, hraw]
      intro hreturns
      rw [Outcome.Returns] at hreturns
      split at hreturns
      · cases hreturns
      · exact hcode (Option.some.inj hreturns)
    · exact fun hplain => hreport hplain.1

theorem Holds.returns_getInt32 (h : dbs.Holds kind) (hdomain : domain ∈ kDomains) {key : String}
    (htyped : kind domain key = .int32) :
    ((Outcome.of (dbs.rocksdb.getInt32 u domain key).1).map .int32).Returns
        DataType.int32Result (dbs.contents domain key) ↔
      Plain dbs.contents (.getInt32 domain key, u) := by
  by_cases hreport : u.report = .ok
  · apply iff_of_true _ hreport
    rw [RocksdbDatabase.getInt32, h.getRawBytes hdomain hreport]
    cases hvalue : dbs.contents domain key with
    | none => rfl
    | some stored =>
        cases stored with
        | string value =>
            have hkind := h.typed domain key _ hvalue
            rw [htyped] at hkind
            cases hkind
        | int32 value =>
            simp only [Option.map_some, Option.elim_some, DataType.buffer,
              validateInt32StorageBuffer_int32Buffer, if_true, ofInt32Buffer_int32Buffer]
            rfl
  · obtain ⟨e, d, hraw, hcode⟩ := h.getRawBytes_of_ne hdomain hreport key
    apply iff_of_false _ hreport
    rw [RocksdbDatabase.getInt32, hraw]
    intro hreturns
    rw [Outcome.Returns] at hreturns
    split at hreturns
    · cases hreturns
    · exact hcode (Option.some.inj hreturns)

/-! ### Keys -/

theorem Holds.lists_getKeys (h : dbs.Holds kind) (hdomain : domain ∈ kDomains) (pre : String) :
    ∃ names, dbs.rocksdb.getKeys domain pre = .ok names ∧
      dbs.contents.Lists domain pre names := by
  rw [RocksdbDatabase.getKeys, h.getHandle hdomain]
  refine ⟨_, rfl, Std.ExtTreeMap.nodup_keys.filter _, ?_⟩
  intro key
  rw [List.mem_filter, Std.ExtTreeMap.mem_keys, Std.ExtTreeMap.mem_iff_isSome_getElem?,
    h.family domain hdomain, Option.isSome_map]

theorem Holds.lists_inMemory (h : dbs.Holds kind) (hdomain : domain ∈ kDomains) (pre : String) :
    ∃ names, dbs.inMemory.getKeys u domain pre = .ok names ∧
      dbs.contents.Lists domain pre names := by
  obtain ⟨storage, hstorage, hvalues⟩ := h.storage domain hdomain
  rw [InMemoryDatabase.getKeys, hstorage]
  have hperm := u.iterate_perm storage.keys
  refine ⟨_, rfl, (hperm.nodup_iff.mpr Std.ExtTreeMap.nodup_keys).filter _, ?_⟩
  intro key
  rw [List.mem_filter, hperm.mem_iff, Std.ExtTreeMap.mem_keys,
    Std.ExtTreeMap.mem_iff_isSome_getElem?, hvalues key]

/-! ### Writing -/

/-- A put reports a success whatever RocksDB reports. -/
theorem Holds.putString (h : dbs.Holds kind) (hdomain : domain ∈ kDomains) (key : String)
    (value : Bytes) :
    dbs.rocksdb.putString u domain key value =
      (.ok (), if u.report = .ok then dbs.rocksdb.write domain [(key, value)]
        else dbs.rocksdb) := by
  rw [RocksdbDatabase.putString, RocksdbDatabase.putRawBytes, h.getHandle hdomain]
  simp only [RocksdbDatabase.putRawBytesInternal]
  cases u.report <;> rfl

theorem Holds.putValue (h : dbs.Holds kind) (hdomain : domain ∈ kDomains) (key : String)
    (value : DataType) :
    ∃ storage : InMemoryStorage, (∀ k : String, storage[k]? = dbs.contents domain k) ∧
      dbs.inMemory.putValue domain key value =
        (.ok (), { dbs.inMemory with
          storage_ := dbs.inMemory.storage_.insert domain (storage.insert key value) }) := by
  obtain ⟨storage, hstorage, hvalues⟩ := h.storage domain hdomain
  refine ⟨storage, hvalues, ?_⟩
  rw [InMemoryDatabase.putValue, if_neg h.not_closed, hstorage]

theorem Holds.family_write (h : dbs.Holds kind) (handle : String) (data : List (String × Bytes))
    (other : String) :
    (dbs.rocksdb.write handle data).family other =
      if handle = other then
        data.foldl (fun family pair => family.insert pair.1 pair.2) (dbs.rocksdb.family handle)
      else dbs.rocksdb.family other := by
  obtain ⟨families, hfamilies⟩ := Option.isSome_iff_exists.mp h.isSome
  simp only [RocksdbDatabase.write, RocksdbDatabase.family, hfamilies, Option.map_some,
    Option.getD_some, Std.ExtTreeMap.getD_insert, compare_eq_iff_eq]

/-- A value that is put into both databases. -/
theorem Holds.put (h : dbs.Holds kind) {key : String} {value : DataType}
    (hkind : value.kind = kind domain key) {storage : InMemoryStorage}
    (hstorage : ∀ k : String, storage[k]? = dbs.contents domain k) :
    Holds kind {
      rocksdb := dbs.rocksdb.write domain [(key, value.buffer)]
      inMemory := { dbs.inMemory with
        storage_ := dbs.inMemory.storage_.insert domain (storage.insert key value) }
      contents := dbs.contents.store domain key value } where
  calm := h.calm
  isSome := by
    rw [RocksdbDatabase.write, Option.isSome_map]
    exact h.isSome
  handles := h.handles
  family other hother k := by
    rw [h.family_write]
    simp only [StoreContents.store]
    by_cases hsame : domain = other
    · subst hsame
      simp only [if_true, List.foldl_cons, List.foldl_nil, Std.ExtTreeMap.getElem?_insert,
        compare_eq_iff_eq, true_and, h.family domain hother, @eq_comm _ key k]
      split <;> rfl
    · rw [if_neg hsame, if_neg fun hboth => hsame hboth.1.symm]
      exact h.family other hother k
  is_open := h.is_open
  storage other hother := by
    simp only [Std.ExtTreeMap.getElem?_insert, compare_eq_iff_eq, StoreContents.store]
    by_cases hsame : domain = other
    · subst hsame
      refine ⟨_, if_pos rfl, ?_⟩
      intro k
      simp only [Std.ExtTreeMap.getElem?_insert, compare_eq_iff_eq, true_and, hstorage k,
        @eq_comm _ key k]
    · obtain ⟨storage', hstorage', hvalues⟩ := h.storage other hother
      refine ⟨storage', ?_, ?_⟩
      · rw [if_neg hsame]
        exact hstorage'
      · intro k
        rw [if_neg fun hboth => hsame hboth.1.symm]
        exact hvalues k
  typed other k stored hstored := by
    simp only [StoreContents.store] at hstored
    split at hstored
    · next heq =>
        obtain ⟨rfl, rfl⟩ := heq
        cases hstored
        exact hkind
    · exact h.typed other k stored hstored

/-! ### One call -/

/-- A get agrees when RocksDB returns what the contents have, as the database in memory does. -/
theorem agree_of_returns {call : StoreCall} {toResult : DataType → Option StoreResult}
    {value : Option DataType}
    (hanswers : ∀ r, call.Answers dbs.contents r ↔ r.Returns toResult value)
    (hstored : call.Stored u = none)
    (hkeys : ∀ value names, toResult value ≠ some (.keys names))
    (hmemory : (call.onInMemory dbs.inMemory u).1.Returns toResult value) :
    dbs.Agree (call, u) ↔ (call.onRocksdb dbs.rocksdb u).1.Returns toResult value := by
  constructor
  · intro hagree
    exact (hanswers _).mp hagree.answers
  · intro hreturns
    refine ⟨hreturns.same hmemory hkeys, (hanswers _).mpr hreturns, ?_⟩
    intro written hwritten
    rw [hstored] at hwritten
    cases hwritten

/-- A put of one value agrees when RocksDB reports no error. -/
theorem agree_of_success {call : StoreCall}
    (hanswers : ∀ r, call.Answers dbs.contents r ↔ r = .value .success)
    (hstored : call.Stored u = some (u.report = .ok))
    (hrocksdb : (call.onRocksdb dbs.rocksdb u).1 = .value .success)
    (hmemory : (call.onInMemory dbs.inMemory u).1 = .value .success) :
    dbs.Agree (call, u) ↔ u.report = .ok := by
  constructor
  · intro hagree
    exact (hagree.stored _ hstored).mp hrocksdb
  · intro hreport
    refine ⟨?_, (hanswers _).mpr hrocksdb, ?_⟩
    · rw [hrocksdb, hmemory]
      rfl
    · intro written hwritten
      rw [hstored] at hwritten
      cases hwritten
      exact iff_of_true hrocksdb hreport

theorem Holds.not_agree_putStringsUnsafe (h : dbs.Holds kind) (hdomain : domain ∈ kDomains)
    (data : List (String × Bytes)) : ¬dbs.Agree (.putStringsUnsafe domain data, u) := by
  intro hagree
  have hanswers := hagree.answers
  simp only [StoreCall.Answers, StoreCall.onRocksdb, RocksdbDatabase.putStringsUnsafe,
    h.getHandle hdomain] at hanswers
  split at hanswers
  · cases hanswers
  · split at hanswers
    · cases hanswers
    · cases hanswers

theorem Holds.agree_getKeys (h : dbs.Holds kind) (hdomain : domain ∈ kDomains) (pre : String) :
    dbs.Agree (.getKeys domain pre, u) := by
  obtain ⟨names, hnames, hlists⟩ := h.lists_getKeys hdomain pre
  obtain ⟨names', hnames', hlists'⟩ := h.lists_inMemory (u := u) hdomain pre
  refine ⟨?_, ⟨names, ?_, hlists⟩, fun _ hwritten => by cases hwritten⟩
  · simp only [StoreCall.onRocksdb, StoreCall.onInMemory, hnames, hnames']
    exact hlists.perm hlists'
  · simp only [StoreCall.onRocksdb, hnames]
    rfl

/-- On databases that hold the contents, the condition on the call is exact. -/
theorem Holds.agree_iff (h : dbs.Holds kind) {c : StoreCall} (htyped : c.Typed kind)
    (hdomain : c.domain ∈ kDomains) : dbs.Agree (c, u) ↔ Plain dbs.contents (c, u) := by
  cases c with
  | putString domain key value =>
      have hdomain : domain ∈ kDomains := hdomain
      obtain ⟨storage, -, hmemory⟩ := h.putValue hdomain key (.string value)
      apply agree_of_success (fun _ => Iff.rfl) rfl
      · simp only [StoreCall.onRocksdb, h.putString hdomain]
        rfl
      · simp only [StoreCall.onInMemory, InMemoryDatabase.putString, hmemory]
        rfl
  | putInt32 domain key value =>
      have hdomain : domain ∈ kDomains := hdomain
      obtain ⟨storage, -, hmemory⟩ := h.putValue hdomain key (.int32 value)
      apply agree_of_success (fun _ => Iff.rfl) rfl
      · simp only [StoreCall.onRocksdb, RocksdbDatabase.putInt32, h.putString hdomain]
        rfl
      · simp only [StoreCall.onInMemory, InMemoryDatabase.putInt32, hmemory]
        rfl
  | putStringsUnsafe domain data =>
      exact iff_of_false (h.not_agree_putStringsUnsafe hdomain data) not_false
  | getString domain key =>
      rw [agree_of_returns (fun _ => Iff.rfl) rfl]
      · exact h.returns_getString hdomain htyped
      · intro value names
        cases value <;> exact fun heq => by cases heq
      · exact h.returns_getValue hdomain _ _ .string key
  | getInt32 domain key =>
      rw [agree_of_returns (fun _ => Iff.rfl) rfl]
      · exact h.returns_getInt32 hdomain htyped
      · intro value names
        cases value <;> exact fun heq => by cases heq
      · exact h.returns_getValue hdomain _ _ .int32 key
  | getKeys domain pre => exact iff_of_true (h.agree_getKeys hdomain pre) trivial

/-- A call that agrees leaves databases that hold the contents. -/
theorem Holds.step (h : dbs.Holds kind) {c : StoreCall} (htyped : c.Typed kind)
    (hdomain : c.domain ∈ kDomains) (hplain : Plain dbs.contents (c, u)) :
    (dbs.step (c, u)).Holds kind := by
  cases c with
  | putString domain key value =>
      have hdomain : domain ∈ kDomains := hdomain
      have hplain : u.report = .ok := hplain
      have hkind : (DataType.string value).kind = kind domain key := htyped.symm
      obtain ⟨storage, hstorage, hmemory⟩ := h.putValue hdomain key (.string value)
      simp only [Databases.step, StoreCall.onRocksdb, StoreCall.onInMemory, StoreCall.apply,
        h.putString hdomain, InMemoryDatabase.putString, hmemory]
      rw [if_pos hplain]
      exact h.put hkind hstorage
  | putInt32 domain key value =>
      have hdomain : domain ∈ kDomains := hdomain
      have hplain : u.report = .ok := hplain
      have hkind : (DataType.int32 value).kind = kind domain key := htyped.symm
      obtain ⟨storage, hstorage, hmemory⟩ := h.putValue hdomain key (.int32 value)
      simp only [Databases.step, StoreCall.onRocksdb, StoreCall.onInMemory, StoreCall.apply,
        RocksdbDatabase.putInt32, h.putString hdomain, InMemoryDatabase.putInt32, hmemory]
      rw [if_pos hplain]
      exact h.put hkind hstorage
  | putStringsUnsafe domain data => exact False.elim hplain
  | getString domain key =>
      have hsame : (dbs.rocksdb.getString u domain key).2 = dbs.rocksdb := by
        have hraw := h.getRawBytes (u := u) (show domain ∈ kDomains from hdomain) hplain.1 key
        rw [RocksdbDatabase.getString, hraw]
        cases dbs.contents domain key with
        | none => rfl
        | some value =>
            simp only [Option.map_some, Option.elim_some]
            split <;> rfl
      simp only [Databases.step, StoreCall.onRocksdb, hsame]
      exact h
  | getInt32 domain key =>
      have hsame : (dbs.rocksdb.getInt32 u domain key).2 = dbs.rocksdb := by
        have hraw := h.getRawBytes (u := u) (show domain ∈ kDomains from hdomain) hplain key
        rw [RocksdbDatabase.getInt32, hraw]
        cases dbs.contents domain key with
        | none => rfl
        | some value =>
            simp only [Option.map_some, Option.elim_some]
            split <;> rfl
      simp only [Databases.step, StoreCall.onRocksdb, hsame]
      exact h
  | getKeys domain pre => exact h

end Calls

end Databases

/-! ### Runs -/

/-- The databases agree on every call exactly when every call meets the condition. -/
theorem agree_throughout_iff (kind : String → String → Kind)
    {run : List (StoreCall × Surroundings)}
    (hrun : ∀ entry ∈ run, entry.1.Typed kind ∧ entry.1.domain ∈ kDomains) :
    Throughout Databases.step Databases.Agree .opened run ↔
      Throughout (fun m entry => entry.1.apply m) Plain (fun _ _ => none) run := by
  apply throughout_iff (R := fun dbs m => dbs.Holds kind ∧ dbs.contents = m) _ _ hrun
  · exact ⟨Databases.holds_opened kind, rfl⟩
  · rintro dbs m ⟨call, u⟩ ⟨h, rfl⟩ ⟨htyped, hdomain⟩
    exact h.agree_iff htyped hdomain
  · rintro dbs m ⟨call, u⟩ ⟨h, rfl⟩ ⟨htyped, hdomain⟩ hplain
    exact ⟨h.step htyped hdomain hplain, rfl⟩

/-- Every call of RocksDB reports this, and the map in memory is visited in order. -/
def Surroundings.of (report : Report) : Surroundings where
  report := report
  batchPut _ := .ok
  iterate keys := keys
  iterate_perm keys := .refl keys

/-- One key for an integer, all others for strings. -/
def sampleKind (_ key : String) : Kind := if key = "version" then .int32 else .string

def plainRun : List (StoreCall × Surroundings) :=
  [(.putString kQueries "name" [0x6f, 0x73, 0x71, 0x6c], .of .ok),
    (.putInt32 kQueries "version" (-3), .of .ok),
    (.getString kQueries "name", .of .ok),
    (.getInt32 kQueries "version", .of .ok),
    (.getString kQueries "none", .of .ok),
    (.getKeys kQueries "", .of .ok)]

theorem agree_throughout_iff_plainRun :
    Throughout Databases.step Databases.Agree .opened plainRun := by
  refine (agree_throughout_iff sampleKind ?_).mpr ?_
  · intro entry h
    simp only [plainRun, List.mem_cons, List.not_mem_nil, or_false] at h
    rcases h with rfl | rfl | rfl | rfl | rfl | rfl <;>
      exact ⟨by first | rfl | trivial, by decide +kernel⟩
  · refine ⟨rfl, rfl, ⟨rfl, ?_⟩, rfl, ⟨rfl, ?_⟩, trivial, trivial⟩
    · intro value h
      cases h
      decide
    · intro value h
      cases h

def batchRun : List (StoreCall × Surroundings) :=
  [(.putStringsUnsafe kQueries [("name", [0x6f])], .of .ok)]

/-- The string is `abcd` with the tag of an integer behind it. -/
def taggedRun : List (StoreCall × Surroundings) :=
  [(.putString kQueries "name" [0x61, 0x62, 0x63, 0x64, 0x81, 0x01], .of .ok),
    (.getString kQueries "name", .of .ok)]

def failedRun : List (StoreCall × Surroundings) :=
  [(.putString kQueries "name" [0x6f], .of (.failed "IO error: No space left on device"))]

/-- A batch that was written throws, a string is taken for an integer, and a put that failed
reports a success. -/
theorem not_agree_throughout :
    ¬Throughout Databases.step Databases.Agree .opened batchRun ∧
      ¬Throughout Databases.step Databases.Agree .opened taggedRun ∧
      ¬Throughout Databases.step Databases.Agree .opened failedRun := by
  have hopened := Databases.holds_opened sampleKind
  have hdomain : kQueries ∈ kDomains := by decide +kernel
  have hname : sampleKind kQueries "name" = .string := by decide
  refine ⟨?_, ?_, ?_⟩
  · rintro ⟨hagree, -⟩
    exact hopened.not_agree_putStringsUnsafe hdomain _ hagree
  · rintro ⟨-, hagree, -⟩
    have hnext := hopened.step (u := .of .ok)
      (c := .putString kQueries "name" [0x61, 0x62, 0x63, 0x64, 0x81, 0x01]) hname hdomain rfl
    have hplain := (hnext.agree_iff (c := .getString kQueries "name") hname hdomain).mp hagree
    have hfalse := hplain.2 [0x61, 0x62, 0x63, 0x64, 0x81, 0x01] rfl
    revert hfalse
    decide
  · rintro ⟨hagree, -⟩
    have hplain := (hopened.agree_iff (c := .putString kQueries "name" [0x6f]) hname
      hdomain).mp hagree
    cases hplain

end Osquery.Database
