import Osquery.Config.FilePaths
import Osquery.Foundation.CallLog

/-!
# The typed accessors of the loader

Reading a configuration calls accessors of JSON values, each of which demands a value of its
own type. Here the loader logs these calls, and otherwise does what it does.

## Implementation notes

An accessor on a value of another type gives what the unchecked library gives, as in the other
modules; the calls behind it are logged as well. The names of members are texts in every
document. The steps that call no accessor are those of the loader without a log.
-/

namespace Osquery.Config.Accessors

open Foundation.JsonText Foundation.CallLog Foundation.CallLog.Logged Core.Conversions

inductive Accessor
  | getString
  | getUint64
  | getInt
  | getArray
  | getObject
  deriving DecidableEq

/-- A call of an accessor on a value. -/
structure Access where
  accessor : Accessor
  value : Json

/-- The value is a number of 64 bits without sign. -/
def isUint64 : Json → Bool
  | .int n => 0 ≤ n && n < 2 ^ 64
  | _ => false

/-- The value is a number of 32 bits with sign. -/
def isInt : Json → Bool
  | .int n => -2 ^ 31 ≤ n && n < 2 ^ 31
  | _ => false

def isNumber : Json → Bool
  | .int _ => true
  | .real _ _ => true
  | _ => false

def isString : Json → Bool
  | .str _ => true
  | _ => false

def isArray : Json → Bool
  | .arr _ => true
  | _ => false

/-- The value has the type that the accessor demands. -/
def Access.WellTyped (access : Access) : Prop :=
  match access.accessor with
  | .getString => isString access.value = true
  | .getUint64 => isUint64 access.value = true
  | .getInt => isInt access.value = true
  | .getArray => isArray access.value = true
  | .getObject => isObject access.value = true

abbrev Loading := Logged Access

section Values

variable (host : Host)

/-- The bits that a number is stored in. -/
def numberBits : Json → UInt64
  | .int n => UInt64.ofInt n
  | .real m e => host.doubleBits m e
  | _ => 0

def getString (v : Json) : Loading String := .call ⟨.getString, v⟩ (Config.getString v)

def getUint64 (v : Json) : Loading UInt64 := .call ⟨.getUint64, v⟩ (numberBits host v)

def getInt (v : Json) : Loading UInt32 := .call ⟨.getInt, v⟩ (numberBits host v).toUInt32

def getArray (v : Json) : Loading (List Json) := .call ⟨.getArray, v⟩ (Config.getArray v)

def getObject (v : Json) : Loading (List (String × Json)) :=
  .call ⟨.getObject, v⟩ (Config.getObject v)

def valueToSize (v : Json) : Loading UInt64 :=
  if isString v then do return tryToUnsigned (← getString v) 0
  else if isNumber v then getUint64 host v
  else pure 0

def valueToBool (v : Json) : Loading Bool :=
  match v with
  | .bool b => pure b
  | .str _ => do
      let b := (← getString v).toList.map Char.toLower
      return b = "true".toList || b = "t".toList
  | _ => if isNumber v then do return (← getInt host v) ≠ 0 else pure false

/-- The text of a member that is a string. -/
def stringMember? (name : String) (obj : Json) : Loading (Option String) :=
  match member? name obj with
  | none => pure none
  | some v => if isString v then some <$> getString v else pure none

def sizeMember (name : String) (otherwise : UInt64) (obj : Json) : Loading UInt64 :=
  match member? name obj with
  | none => pure otherwise
  | some v => valueToSize host v

def flagMember (name : String) (otherwise : Bool) (q : Json) : Loading Bool :=
  match member? name q with
  | none => pure otherwise
  | some v => valueToBool host v

/-- The texts of an array, which its items are taken for. -/
def texts (v : Json) : Loading (List String) := do (← getArray v).mapM getString

/-- The members of a member that is an object. -/
def objectMember (name : String) (obj : Json) : Loading (List (String × Json)) :=
  match member? name obj with
  | none => pure []
  | some v => if isObject v then getObject v else pure []

end Values

/-! ### Packs -/

section Packs

variable (host : Host)

def passesVersion (q : Json) : Loading Bool := do
  match ← stringMember? "version" q with
  | none => return true
  | some version => .ofOption (checkVersion host version)

/-- The query with its interval and options, unless the interval or the query is invalid. -/
def scheduledQuery (defaultInterval : UInt64) (query : String) (q : Json) :
    Loading (Option ScheduledQuery) := do
  let interval ← sizeMember host "interval" defaultInterval q
  if interval ≤ 0 ∨ query = "" ∨ interval > kMaxQueryInterval then return none
  let snapshot ← flagMember host "snapshot" false q
  let removed ← flagMember host "removed" true q
  let blacklist ← flagMember host "blacklist" true q
  return some { query, interval, options := { snapshot, removed, blacklist } }

def packQuery (defaultInterval : UInt64) (q : Json) : Loading (Option ScheduledQuery) := do
  if !isObject q then return none
  if shardExcluded host (← sizeMember host "shard" 0 q) then return none
  if (← stringMember? "platform" q).any fun p => !checkPlatform host p then return none
  if !(← passesVersion host q) then return none
  match ← stringMember? "query" q with
  | none => return none
  | some query => scheduledQuery host defaultInterval query q

def packSchedule (defaultInterval : UInt64) (queries : List (String × Json)) :
    Loading (Std.ExtTreeMap String ScheduledQuery) :=
  queries.foldlM (fun schedule q => do
    match ← packQuery host defaultInterval q.2 with
    | none => return schedule
    | some query => return schedule.insertIfNew (← getString (.str q.1)) query) ∅

def discoveryQueries (obj : Json) : Loading (List String) :=
  match member? "discovery" obj with
  | none => pure []
  | some v => if isArray v then texts v else pure []

def initializePack (defaultInterval : UInt64) (name source : String) (obj : Json) :
    Loading Pack := do
  let shard ← sizeMember host "shard" 0 obj
  let platform := (← stringMember? "platform" obj).getD ""
  let version := (← stringMember? "version" obj).getD ""
  let restricted : Pack :=
    { name, source, shard, platform, version
      discovery_queries := [], valid := false, schedule := ∅ }
  if shardExcluded host shard || !checkPlatform host platform then return restricted
  if !(← .ofOption (checkVersion host version)) then return restricted
  let discovery_queries ← discoveryQueries obj
  let schedule ← packSchedule host defaultInterval (← objectMember "queries" obj)
  return { restricted with discovery_queries, valid := true, schedule }

end Packs

/-! ### Documents whose values fit -/

section Fits

variable (host : Host)

/-- The shard and the platform of an object include the host. -/
def Includes (obj : Json) : Prop :=
  shardExcluded host (((member? "shard" obj).map (Config.valueToSize host)).getD 0) = false ∧
    checkPlatform host ((Config.stringMember? "platform" obj).getD "") = true

def versionCheck (obj : Json) : Option Bool :=
  checkVersion host ((Config.stringMember? "version" obj).getD "")

/-- All restrictions of an object include the host. -/
def Admits (obj : Json) : Prop := Includes host obj ∧ versionCheck host obj = some true

/-- The version of an object is checked and throws. -/
def Throws (obj : Json) : Prop := Includes host obj ∧ versionCheck host obj = none

/-- The query has no text, or no interval that is allowed. -/
def Invalid (defaultInterval : UInt64) (query : String) (q : Json) : Prop :=
  let interval := ((member? "interval" q).map (Config.valueToSize host)).getD defaultInterval
  interval ≤ 0 ∨ query = "" ∨ interval > kMaxQueryInterval

instance (d : UInt64) (query : String) (q : Json) : Decidable (Invalid host d query q) :=
  inferInstanceAs (Decidable (_ ∨ _))

instance (obj : Json) : Decidable (Includes host obj) := inferInstanceAs (Decidable (_ ∧ _))

/-- The query with its interval and options. -/
def scheduled (defaultInterval : UInt64) (query : String) (q : Json) : ScheduledQuery where
  query := query
  interval := ((member? "interval" q).map (Config.valueToSize host)).getD defaultInterval
  options :=
    { snapshot := Config.flagMember host "snapshot" false q
      removed := Config.flagMember host "removed" true q
      blacklist := Config.flagMember host "blacklist" true q }

def packQueries (obj : Json) : List (String × Json) :=
  ((member? "queries" obj).map Config.getObject).getD []

end Fits

/-! ### Values -/

section ValueSpecs

variable (host : Host)

end ValueSpecs

/-! ### Packs -/

section PackSpecs

variable (host : Host)

/-- Without members nothing is restricted. -/
theorem member?_of_not_isObject {q : Json} (h : ¬isObject q = true) (name : String) :
    member? name q = none := by
  cases q with
  | obj members => exact absurd rfl h
  | null => rfl
  | bool b => rfl
  | int n => rfl
  | real m e => rfl
  | str s => rfl
  | arr items => rfl

theorem any_shardExcluded (size : Option UInt64) :
    size.any (shardExcluded host) = shardExcluded host (size.getD 0) := by
  cases size with
  | none => rfl
  | some size => rfl

theorem any_checkPlatform (platform : Option String) :
    (platform.any fun p => !checkPlatform host p) = !checkPlatform host (platform.getD "") := by
  cases platform with
  | none => rfl
  | some platform => rfl

theorem checkVersion_empty : checkVersion host "" = some true := by
  rw [checkVersion, if_pos (Or.inl rfl)]

theorem packQuery_eq (d : UInt64) (q : Json) :
    Config.packQuery host d q =
      if Includes host q then
        match versionCheck host q with
        | none => none
        | some false => some none
        | some true =>
            match Config.stringMember? "query" q with
            | none => some none
            | some query =>
                if Invalid host d query q then some none
                else some (some (scheduled host d query q))
      else some none := by
  by_cases hobject : isObject q = true
  · rw [Config.packQuery, if_neg (by simp [hobject]), any_shardExcluded, any_checkPlatform]
    by_cases hincludes : Includes host q
    · rw [if_pos hincludes, hincludes.1, hincludes.2, if_neg Bool.false_ne_true,
        if_neg (by simp), versionCheck]
      cases Config.stringMember? "version" q with
      | none =>
          rw [Option.getD_none, checkVersion_empty]
          dsimp only
          cases Config.stringMember? "query" q with
          | none => rfl
          | some query => rfl
      | some version =>
          rw [Option.getD_some]
          dsimp only
          cases checkVersion host version with
          | none => rfl
          | some passes =>
              cases passes with
              | false => rfl
              | true =>
                  cases Config.stringMember? "query" q with
                  | none => rfl
                  | some query => rfl
    · rw [if_neg hincludes]
      rcases not_and_or.mp hincludes with hshard | hplatform
      · rw [if_pos (by simpa using hshard)]
        rfl
      · rw [if_pos (c := (!_) = true) (by simpa using hplatform), ite_self]
        rfl
  · have hmember := member?_of_not_isObject hobject
    rw [Config.packQuery, if_pos (by simp [hobject])]
    simp [versionCheck, Config.stringMember?, hmember, checkVersion_empty]

/-- The pack executes: it is built, nothing restricts it and its discovery queries agree. -/
structure Executes (discovered : List String → Bool) (obj : Json) : Prop where
  admits : Admits host obj
  queries : ∀ q ∈ packQueries obj, ¬Throws host q.2
  discovered : discovered
    ((((member? "discovery" obj).map Config.getArray).getD []).map Config.getString) = true

end PackSpecs

end Osquery.Config.Accessors
