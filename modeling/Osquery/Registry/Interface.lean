import Osquery.Core.Rows
import Osquery.Core.Status

/-!
# Registries and the plugins that extensions add to them

A registry keeps its own plugins, the names of the plugins of extensions with the extension
that serves each, and the route info that was broadcast for them. The factory keeps the
registries and the extensions that are registered. An extension brings all of its plugins in
one broadcast, and the factory adds them registry by registry and item by item.

## Implementation notes

What a plugin type answers when an external plugin is added is a function of the registry,
which a broadcast asks at most once for each item. What the type does when one is removed
leaves the registry alone and is left out, as are locks and log lines. An unknown registry
that is asked for is an exception.
-/

namespace Osquery.Registry

open Core Core.Rows

abbrev PluginResponse := QueryData

abbrev RegistryRoutes := Std.ExtTreeMap String PluginResponse

abbrev RouteUUID := UInt64

abbrev RegistryBroadcast := Std.ExtTreeMap String RegistryRoutes

/-! ### What plugin types do with external plugins -/

def Plugin.addExternal (_name : String) (_info : PluginResponse) : Status := ⟨0, "Not used"⟩

/-- The table is attached through the SQL registry. -/
def TablePlugin.addExternal (attach : String → Status) (name : String)
    (response : PluginResponse) : Status :=
  if response.length = 0 then ⟨1, "Invalid route info"⟩ else attach name

/-! ### One registry -/

/-- A registry with what extensions brought. -/
structure RegistryInterface (π : Type) where
  addExternalPlugin : String → PluginResponse → Status
  items_ : Std.ExtTreeMap String π := ∅
  aliases_ : Std.ExtTreeMap String String := ∅
  external_ : Std.ExtTreeMap String RouteUUID := ∅
  routes_ : Std.ExtTreeMap String PluginResponse := ∅

variable {π : Type}

namespace RegistryInterface

def exists_ (r : RegistryInterface π) (item_name : String) (local_ : Bool) : Bool :=
  let has_local := r.items_.contains item_name
  let has_external := r.external_.contains item_name
  let has_route := r.routes_.contains item_name
  if local_ then has_local else has_local || has_external || has_route

/-- The routes are added in order until one is rejected. -/
def addExternal (r : RegistryInterface π) (uuid : RouteUUID) :
    List (String × PluginResponse) → Status × RegistryInterface π
  | [] => (.success, r)
  | route :: routes =>
      let r := { r with routes_ := r.routes_.insert route.1 route.2 }
      let status := r.addExternalPlugin route.1 route.2
      if status.ok then
        addExternal { r with external_ := r.external_.insert route.1 uuid } uuid routes
      else (status, r)

/-- The items of one extension go. -/
def removeExternal (r : RegistryInterface π) (uuid : RouteUUID) : RegistryInterface π :=
  let removed_items := (r.external_.toList.filter fun item => item.2 == uuid).map Prod.fst
  { r with
    external_ := removed_items.foldl (fun external_ item => external_.erase item) r.external_
    routes_ := removed_items.foldl (fun routes_ item => routes_.erase item) r.routes_ }

def names (r : RegistryInterface π) : List String := r.items_.keys ++ r.external_.keys

end RegistryInterface

/-! ### The factory -/

structure RegistryFactory (π : Type) where
  allow_duplicates_ : Bool := false
  registries_ : Std.ExtTreeMap String (RegistryInterface π) := ∅
  extensions_ : Std.ExtTreeSet RouteUUID := ∅

/-- How the pass over the registries of a broadcast ends. -/
inductive Pass
  | returned (status : Status)
  | finished (status : Status)

namespace RegistryFactory

def exists_ (f : RegistryFactory π) (registry_name item_name : String) : Bool :=
  match f.registries_[registry_name]? with
  | none => false
  | some registry => registry.exists_ item_name false

/-- The items of a broadcast, registry by registry. -/
def broadcastItems (broadcast : RegistryBroadcast) : List (String × String) :=
  broadcast.toList.flatMap fun registry => registry.2.toList.map fun item => (registry.1, item.1)

def addEach (f : RegistryFactory π) (uuid : RouteUUID) :
    List (String × RegistryRoutes) → Status → Pass × RegistryFactory π
  | [], status => (.finished status, f)
  | registry :: broadcast, _ =>
      match f.registries_[registry.1]? with
      | none => (.returned ⟨1, "Unknown registry: " ++ registry.1⟩, f)
      | some r =>
          let added := r.addExternal uuid registry.2.toList
          let f := { f with registries_ := f.registries_.insert registry.1 added.2 }
          if added.1.ok then addEach f uuid broadcast added.1 else (.finished added.1, f)

/-- Undoes a broadcast. -/
def removeEach (f : RegistryFactory π) (uuid : RouteUUID) :
    List (String × RegistryRoutes) → Except String Unit × RegistryFactory π
  | [] => (.ok (), f)
  | registry :: broadcast =>
      match f.registries_[registry.1]? with
      | none => (.error ("Unknown registry requested: " ++ registry.1), f)
      | some r =>
          let f := { f with registries_ := f.registries_.insert registry.1 (r.removeExternal uuid) }
          removeEach f uuid broadcast

/-- Calls each registry once duplication is satisfied, and undoes the calls if one failed. -/
def addRegistries (f : RegistryFactory π) (uuid : RouteUUID) (broadcast : RegistryBroadcast) :
    Except String Status × RegistryFactory π :=
  match f.addEach uuid broadcast.toList .success with
  | (.returned status, f) => (.ok status, f)
  | (.finished status, f) =>
      match if status.ok then (.ok (), f) else f.removeEach uuid broadcast.toList with
      | (.error what, f) => (.error what, f)
      | (.ok (), f) => (.ok status, { f with extensions_ := f.extensions_.insert uuid })

def addBroadcast (f : RegistryFactory π) (uuid : RouteUUID) (broadcast : RegistryBroadcast) :
    Except String Status × RegistryFactory π :=
  if f.extensions_.contains uuid then
    (.ok ⟨1, "Duplicate extension UUID: " ++ toString uuid.toNat⟩, f)
  else
    match if f.allow_duplicates_ then none
      else (broadcastItems broadcast).find? fun item => f.exists_ item.1 item.2 with
    | some item => (.ok ⟨1, "Duplicate registry item: " ++ item.2⟩, f)
    | none => f.addRegistries uuid broadcast

def removeBroadcast (f : RegistryFactory π) (uuid : RouteUUID) : Status × RegistryFactory π :=
  if f.extensions_.contains uuid then
    (.success, { f with
      registries_ := f.registries_.map fun _ r => r.removeExternal uuid
      extensions_ := f.extensions_.erase uuid })
  else (⟨1, "Unknown extension UUID: " ++ toString uuid.toNat⟩, f)

/-- There are no names for a registry that is unknown, which is an exception. -/
def names (f : RegistryFactory π) (registry_name : String) : Option (List String) :=
  (f.registries_[registry_name]?).map RegistryInterface.names

end RegistryFactory

end Osquery.Registry
