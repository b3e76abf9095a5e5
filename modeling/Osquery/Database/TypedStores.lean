import Osquery.Database.Plugin
import Osquery.Foundation.BigEndian

/-!
# Two stores of strings and integers

A database keeps strings and integers of 32 bits under the keys of its domains. The one over
RocksDB writes an integer as four bytes and a tag; what it reads back is an integer when it has
the length and the tag of one. The one in memory keeps values of a variant type.

## Implementation notes

The builds without assertions are modelled. What a call of RocksDB reports is an input; one
that reports an error has not written, and an iterator visits all keys. The order in which the
map in memory is visited is an input too. Taking the error of a result that is a value throws.
Locks and log lines are left out. The names of types are those of one standard library.
-/

namespace Osquery.Database

open Foundation.BigEndian

abbrev Bytes := List UInt8

/-! ### Errors -/

inductive DatabaseError
  | unknown
  | dbIsNotOpen
  | invalidPath
  | failToDestroyDB
  | failToOpenDatabase
  | failToReadData
  | failToWriteData
  | keyNotFound
  | domainNotFound
  | panic
  deriving DecidableEq

inductive RocksdbError
  | unexpectedValueType
  | databaseIsCorrupted
  | batchWriteFail
  deriving DecidableEq

structure StoreError where
  code : DatabaseError
  message : String
  underlyingError : Option (RocksdbError × String) := none
  deriving DecidableEq

/-- The end of a call: it returns, or it throws. -/
inductive Outcome (α : Type)
  | value (result : α)
  | error (e : StoreError)
  | thrown
  deriving DecidableEq

def Outcome.of {α : Type} : Except StoreError α → Outcome α
  | .ok result => .value result
  | .error e => .error e

def Outcome.map {α β : Type} (f : α → β) : Outcome α → Outcome β
  | .value result => .value (f result)
  | .error e => .error e
  | .thrown => .thrown

/-- `takeError` -/
def takeError {α β : Type} : Except StoreError α → Outcome β
  | .ok _ => .thrown
  | .error e => .error e

/-! ### What the databases rest on -/

inductive Report
  | ok
  | corruption (status : String)
  | failed (status : String)
  deriving DecidableEq

def Report.status : Report → Option String
  | .ok => none
  | .corruption status => some status
  | .failed status => some status

/-- What RocksDB reports during a call, and the order of the map in memory. -/
structure Surroundings where
  report : Report
  batchPut : String × Bytes → Report
  iterate : List String → List String
  iterate_perm : ∀ keys, (iterate keys).Perm keys

/-! ### RocksDB -/

def kIntTag : ℕ := 0x8101

abbrev ColumnFamily := Std.ExtTreeMap String Bytes

/-- The column families of an open database are reached by the names of their handles. -/
structure RocksdbDatabase where
  in_panic_ : Bool
  db_ : Option (Std.ExtTreeMap String ColumnFamily)
  handles_map_ : List String

namespace RocksdbDatabase

/-- A new database that was opened. -/
def opened : RocksdbDatabase where
  in_panic_ := false
  db_ := some ∅
  handles_map_ := "default" :: kDomains

def family (d : RocksdbDatabase) (handle : String) : ColumnFamily :=
  (d.db_.getD ∅).getD handle ∅

/-- RocksDB writes pairs to a column family. -/
def write (d : RocksdbDatabase) (handle : String) (data : List (String × Bytes)) :
    RocksdbDatabase :=
  { d with
    db_ := d.db_.map fun families =>
      families.insert handle
        (data.foldl (fun family pair => family.insert pair.1 pair.2) (d.family handle)) }

variable (d : RocksdbDatabase) (u : Surroundings)

def getHandle (domain : String) : Except StoreError String :=
  if d.in_panic_ then .error ⟨.panic, "Database is in panic mode :(", none⟩
  else if d.db_.isNone then .error ⟨.dbIsNotOpen, "Database is closed", none⟩
  else if domain ∉ d.handles_map_ then .error ⟨.domainNotFound, "Unknown database domain", none⟩
  else .ok domain

def getRawBytesInternal (handle key : String) : Except StoreError Bytes × RocksdbDatabase :=
  match u.report with
  | .corruption status =>
      (.error ⟨.panic, "", some (.databaseIsCorrupted, status)⟩, { d with in_panic_ := true })
  | .failed status => (.error ⟨.failToReadData, status, none⟩, d)
  | .ok =>
      match (d.family handle)[key]? with
      | none => (.error ⟨.keyNotFound, "Value not found", none⟩, d)
      | some value => (.ok value, d)

/-- The error that is created for a status is dropped. -/
def putRawBytesInternal (handle key : String) (value : Bytes) :
    Except StoreError Unit × RocksdbDatabase :=
  match u.report.status with
  | some _ => (.ok (), d)
  | none => (.ok (), d.write handle [(key, value)])

def getRawBytes (domain key : String) : Except StoreError Bytes × RocksdbDatabase :=
  match d.getHandle domain with
  | .ok handle => d.getRawBytesInternal u handle key
  | .error e => (.error e, d)

def putRawBytes (domain key : String) (value : Bytes) :
    Except StoreError Unit × RocksdbDatabase :=
  match d.getHandle domain with
  | .ok handle => d.putRawBytesInternal u handle key value
  | .error e => (.error e, d)

end RocksdbDatabase

def validateInt32StorageBuffer (buffer : Bytes) : Bool :=
  buffer.length == 6 && Foundation.BigEndian.value (buffer.drop 4) == kIntTag

/-- An integer as `putInt32` lays it out. -/
def int32Buffer (value : Int32) : Bytes :=
  bytes 4 value.toUInt32.toNat ++ bytes 2 kIntTag

/-- The integer of the first four bytes. -/
def ofInt32Buffer (buffer : Bytes) : Int32 :=
  (UInt32.ofNat (Foundation.BigEndian.value (buffer.take 4))).toInt32

namespace RocksdbDatabase

variable (d : RocksdbDatabase) (u : Surroundings)

def getString (domain key : String) : Except StoreError Bytes × RocksdbDatabase :=
  match d.getRawBytes u domain key with
  | (.error e, d) => (.error e, d)
  | (.ok value, d) =>
      if validateInt32StorageBuffer value then
        (.error ⟨.keyNotFound, "", some (.unexpectedValueType, "Fetching string as integer")⟩, d)
      else (.ok value, d)

def putString (domain key : String) (value : Bytes) : Except StoreError Unit × RocksdbDatabase :=
  d.putRawBytes u domain key value

def getInt32 (domain key : String) : Except StoreError Int32 × RocksdbDatabase :=
  match d.getRawBytes u domain key with
  | (.error e, d) => (.error e, d)
  | (.ok value, d) =>
      if validateInt32StorageBuffer value then (.ok (ofInt32Buffer value), d)
      else
        (.error ⟨.keyNotFound, "", some (.unexpectedValueType, "Fetching string as integer")⟩, d)

def putInt32 (domain key : String) (value : Int32) : Except StoreError Unit × RocksdbDatabase :=
  d.putString u domain key (int32Buffer value)

/-- The first report of a pair that is an error. -/
def batchError (data : List (String × Bytes)) : Option String :=
  data.findSome? fun pair => (u.batchPut pair).status

/-- After the write the error of the handle is taken, although there is none. -/
def putStringsUnsafe (domain : String) (data : List (String × Bytes)) :
    Outcome Unit × RocksdbDatabase :=
  match d.getHandle domain with
  | .error e => (.error e, d)
  | .ok handle =>
      match batchError u data with
      | some status =>
          (.error ⟨.failToWriteData, "Failed to write data", some (.batchWriteFail, status)⟩, d)
      | none =>
          match u.report.status with
          | some status => (.error ⟨.failToWriteData, status, none⟩, d)
          | none => (takeError (d.getHandle domain), d.write handle data)

/-- The keys in their order. -/
def getKeys (domain pre : String) : Except StoreError (List String) :=
  match d.getHandle domain with
  | .error e => .error e
  | .ok handle => .ok ((d.family handle).keys.filter fun key => pre.toList.isPrefixOf key.toList)

end RocksdbDatabase

/-! ### In memory -/

inductive DataType
  | string (value : Bytes)
  | int32 (value : Int32)
  deriving DecidableEq

namespace DataType

def type_name : DataType → String
  | string _ => "NSt7__cxx1112basic_stringIcSt11char_traitsIcESaIcEEE"
  | int32 _ => "i"

def getString? : DataType → Option Bytes
  | string value => some value
  | int32 _ => none

def getInt32? : DataType → Option Int32
  | string _ => none
  | int32 value => some value

end DataType

abbrev InMemoryStorage := Std.ExtTreeMap String DataType

structure InMemoryDatabase where
  is_open_ : Bool
  storage_ : Std.ExtTreeMap String InMemoryStorage

namespace InMemoryDatabase

/-- A new database that was opened. -/
def opened : InMemoryDatabase where
  is_open_ := true
  storage_ := kDomains.foldl (fun storage domain => storage.insert domain ∅) ∅

variable (d : InMemoryDatabase)

def domainNotFoundError (domain : String) : StoreError :=
  ⟨.domainNotFound, "Can't find domain: " ++ domain, none⟩

/-- The value of a key, when it is of the type that is asked for. -/
def getValue {α : Type} (cast : DataType → Option α) (typeName : String) (domain key : String) :
    Except StoreError α :=
  if !d.is_open_ then .error ⟨.dbIsNotOpen, "Database is closed", none⟩
  else
    match d.storage_[domain]? with
    | none => .error (domainNotFoundError domain)
    | some storage =>
        match storage[key]? with
        | none => .error ⟨.keyNotFound, "Can't find value for key " ++ key, none⟩
        | some stored =>
            match cast stored with
            | some value => .ok value
            | none =>
                .error ⟨.keyNotFound, "Requested wrong type for: " ++ domain ++ ":" ++ key ++
                  " stored type: " ++ stored.type_name ++ " requested type " ++ typeName, none⟩

def putValue (domain key : String) (value : DataType) : Except StoreError Unit × InMemoryDatabase :=
  if !d.is_open_ then (.error ⟨.dbIsNotOpen, "Database is closed", none⟩, d)
  else
    match d.storage_[domain]? with
    | none => (.error (domainNotFoundError domain), d)
    | some storage =>
        (.ok (), { d with storage_ := d.storage_.insert domain (storage.insert key value) })

def getString (domain key : String) : Except StoreError Bytes :=
  d.getValue DataType.getString?
    "std::__cxx11::basic_string<char, std::char_traits<char>, std::allocator<char> >" domain key

def putString (domain key : String) (value : Bytes) : Except StoreError Unit × InMemoryDatabase :=
  d.putValue domain key (.string value)

def getInt32 (domain key : String) : Except StoreError Int32 :=
  d.getValue DataType.getInt32? "int" domain key

def putInt32 (domain key : String) (value : Int32) : Except StoreError Unit × InMemoryDatabase :=
  d.putValue domain key (.int32 value)

def getKeys (u : Surroundings) (domain pre : String) : Except StoreError (List String) :=
  match d.storage_[domain]? with
  | none => .error (domainNotFoundError domain)
  | some storage =>
      .ok ((u.iterate storage.keys).filter fun key => pre.toList.isPrefixOf key.toList)

def putStringsUnsafe (domain : String) (data : List (String × Bytes)) :
    Except StoreError Unit × InMemoryDatabase :=
  match d.storage_[domain]? with
  | none => (.error (domainNotFoundError domain), d)
  | some storage =>
      (.ok (), { d with
        storage_ := d.storage_.insert domain
          (data.foldl (fun storage pair => storage.insert pair.1 (.string pair.2)) storage) })

end InMemoryDatabase

end Osquery.Database
