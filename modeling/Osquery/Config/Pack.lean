import Osquery.EventSubscribers.Schedule

/-!
# Query packs

A pack is built from a JSON object: its restrictions, its discovery queries and
its schedule. The restrictions decide whether the rest of the object is read at
all, and the schedule keeps the queries whose own restrictions and intervals
are acceptable.

## Implementation notes

`rapidjson` is compiled without its assertions: a number read as another kind
of number is the bit pattern it is stored in, and the text of a value that is
no string, which the library leaves undefined, is the empty text here. The
bits of a decimal number belong to the library and are a field of `Host`. A
schedule is a map, and the first query of a name wins. The splayed interval
is left out.
-/

namespace Osquery.Config

open Foundation.JsonText Foundation.Numeral Core.Conversions Core.Rows

/-! ### JSON accessors -/

/-- The member of an object with a name; the first one where there are several. -/
def member? (name : String) : Json → Option Json
  | .obj members => (members.find? fun m => m.1 = name).map Prod.snd
  | _ => none

def isObject : Json → Bool
  | .obj _ => true
  | _ => false

/-- The members of an object in document order. -/
def getObject : Json → List (String × Json)
  | .obj members => members
  | _ => []

def getArray : Json → List Json
  | .arr items => items
  | _ => []

/-- The text of a string value, as a C string. -/
def getString : Json → String
  | .str s => cstr s
  | _ => ""

/-- The text of a member that is a string. -/
def stringMember? (name : String) (obj : Json) : Option String :=
  match member? name obj with
  | some (.str s) => some (cstr s)
  | _ => none

/-! ### The host -/

/-- What the process knows about its host and its own version. -/
structure Host where
  machineShard : UInt64
  isLinux : Bool
  isPosix : Bool
  sdkPlatform : String
  sdkVersion : String
  doubleBits : ℤ → ℤ → UInt64

variable (host : Host)

def valueToSize : Json → UInt64
  | .str s => tryToUnsigned (cstr s) 0
  | .int n => UInt64.ofInt n
  | .real m e => host.doubleBits m e
  | _ => 0

/-- A number is true unless the lower half of its bits is zero. -/
def valueToBool : Json → Bool
  | .bool b => b
  | .str s =>
      let b := (cstr s).toList.map Char.toLower
      b = "true".toList || b = "t".toList
  | .int n => (UInt64.ofInt n).toUInt32 ≠ 0
  | .real m e => (host.doubleBits m e).toUInt32 ≠ 0
  | _ => false

def mentions (platform word : String) : Bool := word.toList <:+: platform.toList

def checkPlatform (platform : String) : Bool :=
  platform = "" || platform = "null" ||
    mentions platform "any" || mentions platform "all" ||
    (mentions platform "linux" || mentions platform "ubuntu" || mentions platform "centos") &&
      host.isLinux ||
    mentions platform "posix" && host.isPosix ||
    mentions platform host.sdkPlatform

/-- The chunks of the build version against those of the required one. A
number out of the range of `int` is thrown; a chunk that is no number is
compared as text. -/
def chunksAtLeast : List String → List String → Option Bool
  | [], _ => some true
  | _ :: _, [] => some true
  | chunk :: build, needed :: required =>
      match stoi chunk, stoi needed with
      | .ok b, .ok r =>
          if b < r then some false else if b > r then some true else chunksAtLeast build required
      | .error .outOfRange, _ => none
      | .error .invalidArgument, _ =>
          if chunk < needed then some false else chunksAtLeast build required
      | .ok _, .error .outOfRange => none
      | .ok _, .error .invalidArgument =>
          if chunk < needed then some false else chunksAtLeast build required

/-- The version `0.0.0` passes every check. -/
def versionAtLeast (v sdk : String) : Option Bool :=
  if v = "0.0.0" ∨ sdk = "0.0.0" then some true
  else chunksAtLeast (split sdk ".") (split v ".")

def checkVersion (version : String) : Option Bool :=
  if version = "" ∨ version = "null" then some true
  else versionAtLeast version host.sdkVersion

/-- Shards below the limit are included, and no limit is zero. -/
def shardExcluded (shard : UInt64) : Bool := shard > 0 && shard < host.machineShard

/-! ### Packs -/

def kMaxQueryInterval : UInt64 := 604800

structure QueryOptions where
  snapshot : Bool
  removed : Bool
  blacklist : Bool
  deriving DecidableEq

structure ScheduledQuery where
  query : String
  interval : UInt64
  options : QueryOptions
  deriving DecidableEq

/-- A query pack. -/
structure Pack where
  name : String
  source : String
  shard : UInt64
  platform : String
  version : String
  discovery_queries : List String
  valid : Bool
  schedule : Std.ExtTreeMap String ScheduledQuery

/-- A boolean member with its default. -/
def flagMember (name : String) (otherwise : Bool) (q : Json) : Bool :=
  match member? name q with
  | none => otherwise
  | some v => valueToBool host v

/-- The query of a pack, unless it is restricted to other hosts or invalid; the
check of its version may throw. -/
def packQuery (defaultInterval : UInt64) (q : Json) : Option (Option ScheduledQuery) := do
  if !isObject q then return none
  if ((member? "shard" q).map (valueToSize host)).any (shardExcluded host) then return none
  if (stringMember? "platform" q).any fun p => !checkPlatform host p then return none
  if let some version := stringMember? "version" q then
    if !(← checkVersion host version) then return none
  let some query := stringMember? "query" q | return none
  let interval := ((member? "interval" q).map (valueToSize host)).getD defaultInterval
  if interval ≤ 0 ∨ query = "" ∨ interval > kMaxQueryInterval then return none
  return some
    { query, interval
      options :=
        { snapshot := flagMember host "snapshot" false q
          removed := flagMember host "removed" true q
          blacklist := flagMember host "blacklist" true q } }

/-- The queries of a pack; a name that is already there keeps its query. -/
def packSchedule (defaultInterval : UInt64) (queries : List (String × Json)) :
    Option (Std.ExtTreeMap String ScheduledQuery) :=
  queries.foldlM (fun schedule q => do
    match ← packQuery host defaultInterval q.2 with
    | none => return schedule
    | some query => return schedule.insertIfNew (cstr q.1) query) ∅

/-- A pack, unless a version in it throws. Nothing but the restrictions is read
from a pack that they exclude. -/
def initializePack (defaultInterval : UInt64) (name source : String) (obj : Json) :
    Option Pack := do
  let shard := ((member? "shard" obj).map (valueToSize host)).getD 0
  let platform := (stringMember? "platform" obj).getD ""
  let version := (stringMember? "version" obj).getD ""
  let restricted : Pack :=
    { name, source, shard, platform, version
      discovery_queries := [], valid := false, schedule := ∅ }
  if shardExcluded host shard || !checkPlatform host platform then return restricted
  if !(← checkVersion host version) then return restricted
  let schedule ← packSchedule host defaultInterval
    (((member? "queries" obj).map getObject).getD [])
  return { restricted with
    discovery_queries := (((member? "discovery" obj).map getArray).getD []).map getString
    valid := true
    schedule }

/-- A pack executes if it is valid and its discovery queries return rows. -/
def Pack.shouldPackExecute (discovered : List String → Bool) (pack : Pack) : Bool :=
  pack.valid && discovered pack.discovery_queries

/-! ### The list of packs -/

/-- The packs of the schedule. No two of them have one name and one source. -/
structure PackList where
  packs : List Pack
  distinct : packs.Pairwise fun p q => ¬(p.name = q.name ∧ p.source = q.source)

def PackList.empty : PackList := ⟨[], List.Pairwise.nil⟩

/-- A pack is removed by its name, and by its source where one is given. -/
def isRemoved (name source : String) (p : Pack) : Bool :=
  p.name = name && (p.source = source || source = "")

def PackList.remove (name source : String) (l : PackList) : PackList :=
  ⟨l.packs.filter fun p => !isRemoved name source p, l.distinct.filter _⟩

def PackList.removeAll (source : String) (l : PackList) : PackList :=
  ⟨l.packs.filter fun p => p.source ≠ source, l.distinct.filter _⟩

/-- A pack takes the place of the one with its name and source. -/
def PackList.add (pack : Pack) (l : PackList) : PackList where
  packs := (l.remove pack.name pack.source).packs ++ [pack]
  distinct := by
    apply List.pairwise_append.mpr
    refine ⟨(l.remove pack.name pack.source).distinct, List.pairwise_singleton _ _, ?_⟩
    intro p hp q hq
    obtain rfl := List.mem_singleton.mp hq
    intro h
    have hkept := (List.mem_filter.mp hp).2
    simp [isRemoved, h.1, h.2] at hkept

/-- What the readers of the schedule see of a query. -/
def ScheduledQuery.view (query : ScheduledQuery) : EventSubscribers.ScheduledQuery :=
  ⟨query.query, query.interval, some query.options.blacklist⟩

/-- What the readers of the schedule see of a pack. -/
def Pack.view (discovered : List String → Bool) (pack : Pack) : EventSubscribers.Pack :=
  ⟨pack.name, pack.shouldPackExecute discovered,
    pack.schedule.toList.map fun q => (q.1, q.2.view)⟩

/-- A pack carries the name and the source it was built with. -/
theorem initializePack_name {host : Host} {defaultInterval : UInt64} {name source : String}
    {obj : Json} {pack : Pack}
    (h : initializePack host defaultInterval name source obj = some pack) :
    pack.name = name ∧ pack.source = source := by
  simp only [initializePack, bind, pure] at h
  split at h
  · obtain rfl := Option.some.inj h
    exact ⟨rfl, rfl⟩
  · obtain ⟨current, -, h⟩ := Option.bind_eq_some_iff.mp h
    split at h
    · obtain rfl := Option.some.inj h
      exact ⟨rfl, rfl⟩
    · obtain ⟨schedule, -, h⟩ := Option.bind_eq_some_iff.mp h
      obtain rfl := Option.some.inj h
      exact ⟨rfl, rfl⟩

end Osquery.Config
