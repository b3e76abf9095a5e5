import Osquery.Registry.Broadcast
import Osquery.Config.Pack
import Osquery.Foundation.Simulation

/-!
# The manager of extensions

The manager keeps the metadata of the extensions that registered, under the number that it drew
for each, and the registry factory keeps the numbers and the external items. An extension is
registered with both, and leaves when it deregisters or when the watcher finds it gone.

## Implementation notes

The number that is drawn is an input of a registration. A version whose chunk is out of the
range of `int` is thrown, as is an unknown registry that a broadcast undoes. The watcher asks an
extension for its socket and pings it; what it finds is an input of its pass.
-/

namespace Osquery.Registry

open Core Foundation.Changes Foundation.Simulation

variable {π : Type}

abbrev ExtensionCode.EXT_SUCCESS : ℤ := 0

abbrev ExtensionCode.EXT_FAILED : ℤ := 1

/-- The metadata of an extension. -/
structure ExtensionInfo where
  name : String
  version : String
  sdk_version : String
  min_sdk_version : String

abbrev ExtensionList := Std.ExtTreeMap RouteUUID ExtensionInfo

/-- The releases of the SDK that changed its interface. -/
def kSDKVersionChanges : List String := ["1.7.7"]

def RegistryFactory.routeUUIDs (f : RegistryFactory π) : List RouteUUID := f.extensions_.toList

/-! ### The manager -/

structure ExtensionManager (π : Type) where
  factory : RegistryFactory π
  extensions_ : ExtensionList := ∅

namespace ExtensionManager

def refresh (m : ExtensionManager π) : ExtensionManager π :=
  let uuids := m.factory.routeUUIDs
  let removed_routes := m.extensions_.keys.filter fun uuid => !uuids.contains uuid
  { m with extensions_ := removed_routes.foldl (fun t uuid => t.erase uuid) m.extensions_ }

def extensions (m : ExtensionManager π) : ExtensionList × ExtensionManager π :=
  (m.refresh.extensions_, m.refresh)

def exists_ (m : ExtensionManager π) (name : String) : Bool × ExtensionManager π :=
  (m.refresh.extensions_.toList.any fun extension => extension.2.name = name, m.refresh)

/-- The SDK is not older than any of the changes, unless a version throws. -/
def enforceChanges (sdk_version : String) : List String → Option Bool
  | [] => some true
  | change :: changes =>
      match Config.versionAtLeast change sdk_version with
      | none => none
      | some false => some false
      | some true => enforceChanges sdk_version changes

/-- The number that `rand` gives to an extension. -/
def drawUUID (rand : UInt32) : RouteUUID := rand.toUInt16.toUInt64

/-- The result, the number that the caller sees, and the manager. -/
def registerExtension (m : ExtensionManager π) (info : ExtensionInfo)
    (registry : RegistryBroadcast) (rand : UInt32) (uuid : RouteUUID) :
    Except String Status × RouteUUID × ExtensionManager π :=
  let (duplicate, m) := m.exists_ info.name
  if duplicate then
    (.ok ⟨ExtensionCode.EXT_FAILED, "Duplicate extension registered"⟩, uuid, m)
  else
    match enforceChanges info.sdk_version kSDKVersionChanges with
    | none => (.error "stoi", uuid, m)
    | some false =>
        (.ok ⟨ExtensionCode.EXT_FAILED, "Incompatible extension SDK version"⟩, uuid, m)
    | some true =>
        let uuid := drawUUID rand
        match m.factory.addBroadcast uuid registry with
        | (.error what, factory) => (.error what, uuid, { m with factory })
        | (.ok status, factory) =>
            if status.ok then
              (.ok .success, uuid, ⟨factory, m.extensions_.insert uuid info⟩)
            else
              (.ok ⟨ExtensionCode.EXT_FAILED, "Failed adding registry: " ++ status.message⟩, uuid,
                { m with factory })

def deregisterExtension (m : ExtensionManager π) (uuid : RouteUUID) :
    Status × ExtensionManager π :=
  if m.extensions_.contains uuid then
    (.success, ⟨(m.factory.removeBroadcast uuid).2, m.extensions_.erase uuid⟩)
  else (⟨ExtensionCode.EXT_FAILED, "No extension UUID found"⟩, m)

end ExtensionManager

/-! ### The watcher -/

/-- What the watcher finds about an extension: its socket, whether it comes up in time, and the
answer to a ping, unless the client throws. -/
structure Probe where
  socketExists : Bool
  extensionPathActive : Bool
  ping : Option Status

abbrev Failures := Std.ExtTreeMap RouteUUID ℕ

/-- One failure is counted for every extension, and two for one that is gone. -/
def watchExtension (probe : RouteUUID → Probe) (failures_ : Failures) (uuid : RouteUUID) :
    Failures :=
  let found := probe uuid
  let exists_ :=
    if !found.socketExists && failures_.getD uuid 0 == 0 then found.extensionPathActive
    else found.socketExists
  if exists_ then
    match found.ping with
    | none => failures_.insert uuid 2
    | some status =>
        if status.code ≠ ExtensionCode.EXT_SUCCESS then failures_.insert uuid 2
        else failures_.insert uuid 1
  else failures_.insert uuid 2

/-- Removes the broadcasts of the extensions that are gone. -/
def removeGone : List (RouteUUID × ℕ) → Failures × RegistryFactory π → Failures × RegistryFactory π
  | [], w => w
  | (uuid, count) :: rest, (failures_, f) =>
      if count > 1 then removeGone rest (failures_.insert uuid 1, (f.removeBroadcast uuid).2)
      else removeGone rest (failures_, f)

def watch (probe : RouteUUID → Probe) (failures_ : Failures) (f : RegistryFactory π) :
    Failures × RegistryFactory π :=
  let failures_ := f.routeUUIDs.foldl (watchExtension probe) failures_
  removeGone failures_.toList (failures_, f)

/-! ### Agreement -/

namespace ExtensionManager

/-- The calls that change the manager or the registry. -/
inductive Operation
  | registerExtension (info : ExtensionInfo) (registry : RegistryBroadcast) (rand : UInt32)
      (uuid : RouteUUID)
  | deregisterExtension (uuid : RouteUUID)
  | removeBroadcast (uuid : RouteUUID)

def step (m : ExtensionManager π) : Operation → ExtensionManager π
  | .registerExtension info registry rand uuid => (m.registerExtension info registry rand uuid).2.2
  | .deregisterExtension uuid => (m.deregisterExtension uuid).2
  | .removeBroadcast uuid => { m with factory := (m.factory.removeBroadcast uuid).2 }

/-- The listed extensions have names of their own and numbers that are registered and not that
of the core, and every external item is one of theirs. -/
structure Agrees (m : ExtensionManager π) : Prop where
  names : ∀ (uuid other : RouteUUID) (info info' : ExtensionInfo),
    m.extensions.1[uuid]? = some info → m.extensions.1[other]? = some info' →
      info.name = info'.name → uuid = other
  core : m.extensions.1[(0 : RouteUUID)]? = none
  registered : ∀ uuid, uuid ∈ m.extensions.1 → uuid ∈ m.factory.routeUUIDs
  listed : ∀ (registry : String) (r : RegistryInterface π) (item : String) (uuid : RouteUUID),
    m.factory.registries_[registry]? = some r → r.external_[item]? = some uuid →
      uuid ∈ m.extensions.1

/-- The extensions that are listed and the whole registry are the same. -/
structure Unchanged (m m' : ExtensionManager π) : Prop where
  extensions : m'.extensions.1 = m.extensions.1
  factory : m'.factory = m.factory

/-- A registration that failed changed nothing. -/
def Undone (m : ExtensionManager π) : Operation → Prop
  | .registerExtension info registry rand uuid =>
      RegistryFactory.succeeded (m.registerExtension info registry rand uuid).1 = false →
        Unchanged m (m.registerExtension info registry rand uuid).2.2
  | _ => True

/-- The manager agrees with the registry after the call, which did nothing if it failed. -/
def AgreesAfter (m : ExtensionManager π) (op : Operation) : Prop :=
  (m.step op).Agrees ∧ m.Undone op

/-- The extension is turned away before its broadcast is added. -/
def TurnsAway (m : ExtensionManager π) (info : ExtensionInfo) : Prop :=
  (m.exists_ info.name).1 = true ∨ enforceChanges info.sdk_version kSDKVersionChanges ≠ some true

/-- The broadcast is added with a number that is not that of the core, or leaves no trace. -/
def Sound (m : ExtensionManager π) : Operation → Prop
  | .registerExtension info registry rand _ =>
      m.TurnsAway info ∨
        m.factory.Clean (drawUUID rand) registry ∧
          (m.factory.Refused (drawUUID rand) registry ∨ m.factory.remaining registry ≠ [] ∨
            drawUUID rand ≠ 0)
  | _ => True

/-! ### Reading the two stores -/

section Stores

variable (m : ExtensionManager π)

theorem mem_routeUUIDs (f : RegistryFactory π) (uuid : RouteUUID) :
    uuid ∈ f.routeUUIDs ↔ uuid ∈ f.extensions_ :=
  Std.ExtTreeSet.mem_toList

/-- The metadata of an extension is listed while its number is registered. -/
theorem getElem?_extensions (uuid : RouteUUID) :
    m.extensions.1[uuid]? =
      if uuid ∈ m.factory.extensions_ then m.extensions_[uuid]? else none := by
  have hremoved : uuid ∈ m.extensions_.keys.filter
      (fun uuid => !m.factory.routeUUIDs.contains uuid) ↔
        uuid ∈ m.extensions_ ∧ uuid ∉ m.factory.extensions_ := by
    rw [List.mem_filter, Std.ExtTreeMap.mem_keys, Bool.not_eq_true', ← Bool.not_eq_true,
      List.contains_iff_mem, mem_routeUUIDs]
  simp only [extensions, refresh, getElem?_eraseAll, hremoved]
  by_cases hregistered : uuid ∈ m.factory.extensions_
  · simp [hregistered]
  · by_cases hlisted : uuid ∈ m.extensions_
    · simp [hregistered, hlisted]
    · simp [hregistered, hlisted]

/-- The list is refreshed before it is returned. -/
theorem mem_routeUUIDs_of_mem_extensions (uuid : RouteUUID) (h : uuid ∈ m.extensions.1) :
    uuid ∈ m.factory.routeUUIDs := by
  rw [Std.ExtTreeMap.mem_iff_isSome_getElem?, getElem?_extensions] at h
  rw [mem_routeUUIDs]
  by_contra hnot
  rw [if_neg hnot] at h
  cases h

/-- Nobody sees that the manager has refreshed its list. -/
theorem extensions_refresh : m.refresh.extensions.1 = m.extensions.1 := by
  ext1 uuid
  have hlisted : m.refresh.extensions_[uuid]? = m.extensions.1[uuid]? := rfl
  have hfactory : m.refresh.factory = m.factory := rfl
  rw [getElem?_extensions m.refresh, hlisted, hfactory, getElem?_extensions]
  split
  · rfl
  · rfl

theorem unchanged_refresh : Unchanged m m.refresh := ⟨m.extensions_refresh, rfl⟩

theorem exists_iff (name : String) :
    (m.exists_ name).1 = true ↔ ∃ (uuid : RouteUUID) (info : ExtensionInfo),
      m.extensions.1[uuid]? = some info ∧ info.name = name := by
  simp [exists_, extensions, List.any_eq_true, Std.ExtTreeMap.mem_toList_iff_getElem?_eq_some]

end Stores

theorem mem_extensions_removeBroadcast (f : RegistryFactory π) (uuid other : RouteUUID) :
    other ∈ (f.removeBroadcast uuid).2.extensions_ ↔ other ∈ f.extensions_ ∧ other ≠ uuid := by
  rw [RegistryFactory.removeBroadcast]
  split
  · dsimp only
    rw [Std.ExtTreeSet.mem_erase, and_comm, Ne, Std.compare_eq_iff_eq, Ne, eq_comm]
  · rename_i hnot
    constructor
    · intro hother
      exact ⟨hother, fun heq => hnot (Std.ExtTreeSet.mem_iff_contains.mp (heq ▸ hother))⟩
    · exact And.left

/-- What is external after a removal was so before, and is not of the removed extension. -/
theorem external_of_removeBroadcast {f : RegistryFactory π} {uuid owner : RouteUUID}
    {registry item : String} {r : RegistryInterface π}
    (hr : (f.removeBroadcast uuid).2.registries_[registry]? = some r)
    (hitem : r.external_[item]? = some owner) :
    ∃ r', f.registries_[registry]? = some r' ∧ r'.external_[item]? = some owner ∧
      (uuid ∈ f.extensions_ → owner ≠ uuid) := by
  rw [RegistryFactory.removeBroadcast] at hr
  split at hr
  · rw [Std.ExtTreeMap.getElem?_map] at hr
    obtain ⟨r', hr', rfl⟩ := Option.map_eq_some_iff.mp hr
    rw [RegistryInterface.getElem?_external_removeExternal] at hitem
    split at hitem
    · cases hitem
    · rename_i hother
      refine ⟨r', hr', hitem, ?_⟩
      rintro - rfl
      exact hother hitem
  · rename_i hnot
    exact ⟨r, hr, hitem, fun huuid => absurd (Std.ExtTreeSet.mem_iff_contains.mp huuid) hnot⟩

/-- What is external after a broadcast was so before, or is of its extension. -/
theorem external_of_withBroadcast {f : RegistryFactory π} {uuid owner : RouteUUID}
    {broadcast : RegistryBroadcast} {registry item : String} {r : RegistryInterface π}
    (hr : (f.withBroadcast uuid broadcast).registries_[registry]? = some r)
    (hitem : r.external_[item]? = some owner) :
    owner = uuid ∨ ∃ r', f.registries_[registry]? = some r' ∧ r'.external_[item]? = some owner := by
  simp only [RegistryFactory.withBroadcast, Std.ExtTreeMap.getElem?_map] at hr
  obtain ⟨r', hr', rfl⟩ := Option.map_eq_some_iff.mp hr
  cases hroutes : broadcast[registry]? with
  | none =>
      rw [hroutes] at hitem
      exact Or.inr ⟨r', hr', hitem⟩
  | some routes =>
      rw [hroutes] at hitem
      simp only [RegistryInterface.withRoutes, Std.ExtTreeMap.getElem?_union,
        Std.ExtTreeMap.getElem?_map] at hitem
      cases hroute : routes[item]? with
      | none =>
          rw [hroute] at hitem
          exact Or.inr ⟨r', hr', by simpa using hitem⟩
      | some info =>
          rw [hroute] at hitem
          exact Or.inl (by simpa using hitem.symm)

/-- A broadcast that is tried and added has all of its registries taken. -/
theorem remaining_eq_nil_of_succeeded {f : RegistryFactory π} {uuid : RouteUUID}
    {broadcast : RegistryBroadcast} (htried : ¬f.Refused uuid broadcast)
    (h : RegistryFactory.succeeded (f.addBroadcast uuid broadcast).1 = true) :
    f.remaining broadcast = [] := by
  rw [f.addBroadcast_of_not_refused uuid broadcast htried] at h
  cases hremaining : f.remaining broadcast with
  | nil => rfl
  | cons stop rest =>
      cases hstop : f.registries_[stop.1]? with
      | none =>
          obtain ⟨status, hstatus, hadd⟩ :=
            RegistryFactory.addRegistries_of_unknown uuid hremaining hstop
          simp [hadd, RegistryFactory.succeeded, hstatus] at h
      | some r =>
          have hadd := RegistryFactory.addRegistries_of_rejected uuid hremaining hstop
          split at hadd
          · obtain ⟨status, hstatus, hadd⟩ := hadd
            simp [hadd, RegistryFactory.succeeded, hstatus] at h
          · obtain ⟨what, hadd⟩ := hadd
            simp [hadd, RegistryFactory.succeeded] at h

/-! ### What a call preserves -/

section Calls

variable {m : ExtensionManager π}

/-- An extension that is no longer registered is taken off the list with all of its items. -/
theorem Agrees.removed (h : m.Agrees) {m' : ExtensionManager π} {uuid : RouteUUID}
    (hfactory : m'.factory = (m.factory.removeBroadcast uuid).2)
    (hkept : ∀ other : RouteUUID, other ≠ uuid → m'.extensions_[other]? = m.extensions_[other]?) :
    m'.Agrees := by
  have hlist : ∀ other : RouteUUID, m'.extensions.1[other]? =
      if other = uuid then none else m.extensions.1[other]? := by
    intro other
    rw [getElem?_extensions, getElem?_extensions, hfactory]
    simp only [mem_extensions_removeBroadcast]
    by_cases hother : other = uuid
    · simp [hother]
    · simp [hother, hkept other hother]
  have hsome : ∀ (other : RouteUUID) (info : ExtensionInfo), m'.extensions.1[other]? = some info →
      m.extensions.1[other]? = some info := by
    intro other info hinfo
    rw [hlist] at hinfo
    split at hinfo
    · cases hinfo
    · exact hinfo
  constructor
  · intro other another info info' hinfo hinfo' hname
    exact h.names other another info info' (hsome _ _ hinfo) (hsome _ _ hinfo') hname
  · rw [hlist]
    split
    · rfl
    · exact h.core
  · exact m'.mem_routeUUIDs_of_mem_extensions
  · intro registry r item owner hr hitem
    rw [hfactory] at hr
    obtain ⟨r', hr', hitem', hne⟩ := external_of_removeBroadcast hr hitem
    have hlisted := h.listed registry r' item owner hr' hitem'
    have hregistered := (mem_routeUUIDs _ _).mp (h.registered owner hlisted)
    have howner : owner ≠ uuid := fun heq => hne (heq ▸ hregistered) heq
    rw [Std.ExtTreeMap.mem_iff_isSome_getElem?, hlist, if_neg howner,
      ← Std.ExtTreeMap.mem_iff_isSome_getElem?]
    exact hlisted

theorem Agrees.of_unchanged (h : m.Agrees) {m' : ExtensionManager π} (hsame : Unchanged m m') :
    m'.Agrees := by
  constructor
  · rw [hsame.extensions]
    exact h.names
  · rw [hsame.extensions]
    exact h.core
  · rw [hsame.extensions, hsame.factory]
    exact h.registered
  · rw [hsame.extensions, hsame.factory]
    exact h.listed

/-- An extension with a name of its own is added with its items, and agrees unless it has the
number of the core. -/
theorem agrees_added_iff (h : m.Agrees) {info : ExtensionInfo} (hname : ¬(m.exists_ info.name).1)
    (uuid : RouteUUID) (registry : RegistryBroadcast) :
    (⟨m.factory.withBroadcast uuid registry, m.refresh.extensions_.insert uuid info⟩ :
      ExtensionManager π).Agrees ↔ uuid ≠ 0 := by
  have hlist : ∀ other : RouteUUID,
      (⟨m.factory.withBroadcast uuid registry, m.refresh.extensions_.insert uuid info⟩ :
        ExtensionManager π).extensions.1[other]? =
        if other = uuid then some info else m.extensions.1[other]? := by
    intro other
    have hlisted : m.refresh.extensions_[other]? = m.extensions.1[other]? := rfl
    rw [getElem?_extensions, RegistryFactory.withBroadcast, Std.ExtTreeMap.getElem?_insert]
    dsimp only
    rw [hlisted, getElem?_extensions]
    by_cases hother : other = uuid
    · simp [hother]
    · by_cases hregistered : other ∈ m.factory.extensions_
      · simp [hother, hregistered, Ne.symm hother]
      · simp [hother, hregistered, Ne.symm hother]
  constructor
  · rintro hagrees rfl
    have hcore := hagrees.core
    rw [hlist, if_pos rfl] at hcore
    cases hcore
  · intro hne
    constructor
    · intro other another info₁ info₂ h₁ h₂ hsame
      rw [hlist] at h₁ h₂
      split at h₁
      · split at h₂
        · simp_all
        · obtain rfl := Option.some.inj h₁
          exact absurd ((m.exists_iff _).mpr ⟨another, info₂, h₂, hsame.symm⟩) hname
      · split at h₂
        · obtain rfl := Option.some.inj h₂
          exact absurd ((m.exists_iff _).mpr ⟨other, info₁, h₁, hsame⟩) hname
        · exact h.names other another info₁ info₂ h₁ h₂ hsame
    · rw [hlist, if_neg (Ne.symm hne)]
      exact h.core
    · exact mem_routeUUIDs_of_mem_extensions _
    · intro name r item owner hr hitem
      rw [Std.ExtTreeMap.mem_iff_isSome_getElem?, hlist]
      split
      · rfl
      · rename_i howner
        obtain ⟨r', hr', hitem'⟩ := (external_of_withBroadcast hr hitem).resolve_left howner
        exact Std.ExtTreeMap.mem_iff_isSome_getElem?.mp (h.listed name r' item owner hr' hitem')

/-- A registration that is not turned away adds the broadcast, and fails with it. -/
theorem registerExtension_of_not_turnsAway {info : ExtensionInfo} (h : ¬m.TurnsAway info)
    (registry : RegistryBroadcast) (rand : UInt32) (uuid : RouteUUID) :
    RegistryFactory.succeeded (m.registerExtension info registry rand uuid).1 =
        RegistryFactory.succeeded (m.factory.addBroadcast (drawUUID rand) registry).1 ∧
      (m.registerExtension info registry rand uuid).2.2 =
        ⟨(m.factory.addBroadcast (drawUUID rand) registry).2,
          if RegistryFactory.succeeded (m.factory.addBroadcast (drawUUID rand) registry).1 then
            m.refresh.extensions_.insert (drawUUID rand) info
          else m.refresh.extensions_⟩ := by
  obtain ⟨hname, hversion⟩ := not_or.mp h
  have hfactory : (m.exists_ info.name).2.factory = m.factory := rfl
  rw [registerExtension]
  simp only [Bool.not_eq_true] at hname
  rw [show m.exists_ info.name = (false, m.refresh) from Prod.ext hname rfl]
  rw [not_not.mp hversion]
  have hrefresh : m.refresh.factory = m.factory := rfl
  simp only [hrefresh]
  generalize m.factory.addBroadcast (drawUUID rand) registry = added
  obtain ⟨outcome, factory⟩ := added
  cases outcome with
  | error what => exact ⟨rfl, rfl⟩
  | ok status =>
      cases hok : status.ok with
      | false =>
          simp only [RegistryFactory.succeeded, hok]
          exact ⟨rfl, rfl⟩
      | true =>
          simp only [RegistryFactory.succeeded, hok, if_true]
          exact ⟨rfl, rfl⟩

/-- A registration that is turned away changes nothing. -/
theorem registerExtension_of_turnsAway {info : ExtensionInfo} (h : m.TurnsAway info)
    (registry : RegistryBroadcast) (rand : UInt32) (uuid : RouteUUID) :
    (m.registerExtension info registry rand uuid).2.2 = m.refresh := by
  rw [registerExtension]
  cases hname : (m.exists_ info.name).1 with
  | true => rw [show m.exists_ info.name = (true, m.refresh) from Prod.ext hname rfl]; rfl
  | false =>
      rw [show m.exists_ info.name = (false, m.refresh) from Prod.ext hname rfl]
      cases hversion : enforceChanges info.sdk_version kSDKVersionChanges with
      | none => rfl
      | some compatible =>
          cases compatible with
          | false => rfl
          | true =>
              have hno := h.resolve_left (by simp [hname])
              exact absurd hversion hno

/-- A registration agrees afterwards, and has changed nothing if it failed, exactly when it is
turned away, is added with a number that is not that of the core, or leaves no trace. -/
theorem agreesAfter_registerExtension_iff (h : m.Agrees) (info : ExtensionInfo)
    (registry : RegistryBroadcast) (rand : UInt32) (uuid : RouteUUID) :
    m.AgreesAfter (.registerExtension info registry rand uuid) ↔
      m.Sound (.registerExtension info registry rand uuid) := by
  by_cases haway : m.TurnsAway info
  · have hsame : Unchanged m (m.registerExtension info registry rand uuid).2.2 := by
      rw [registerExtension_of_turnsAway haway]
      exact m.unchanged_refresh
    exact iff_of_true ⟨h.of_unchanged hsame, fun _ => hsame⟩ (Or.inl haway)
  obtain ⟨hresult, hmanager⟩ := registerExtension_of_not_turnsAway haway registry rand uuid
  rw [Sound, or_iff_right haway, AgreesAfter, step, Undone, hresult, hmanager,
    ← RegistryFactory.atomic_iff_clean, RegistryFactory.Atomic]
  cases hadded : RegistryFactory.succeeded
      (m.factory.addBroadcast (drawUUID rand) registry).1 with
  | true =>
      have htried : ¬m.factory.Refused (drawUUID rand) registry := by
        intro hrefused
        obtain ⟨status, hstatus, hadd⟩ := m.factory.addBroadcast_of_refused _ _ hrefused
        simp [hadd, RegistryFactory.succeeded, hstatus] at hadded
      have htaken := remaining_eq_nil_of_succeeded htried hadded
      obtain ⟨status, -, hadd⟩ := m.factory.addRegistries_of_remaining_nil (drawUUID rand) _ htaken
      rw [m.factory.addBroadcast_of_not_refused _ _ htried, hadd]
      simp only [htaken, if_true, ne_eq, not_true_eq_false, false_or, true_and,
        or_iff_right htried, Bool.true_eq_false, false_imp_iff, and_true]
      exact agrees_added_iff h (not_or.mp haway).1 _ _
  | false =>
      simp only [Bool.false_eq_true, if_false, forall_const]
      constructor
      · rintro ⟨-, hsame⟩
        refine ⟨hsame.factory, ?_⟩
        by_contra hno
        obtain ⟨htried, hno⟩ := not_or.mp hno
        obtain ⟨htaken, -⟩ := not_or.mp hno
        obtain ⟨status, hstatus, hadd⟩ :=
          m.factory.addRegistries_of_remaining_nil (drawUUID rand) _ (not_not.mp htaken)
        rw [m.factory.addBroadcast_of_not_refused _ _ htried, hadd] at hadded
        simp [RegistryFactory.succeeded, hstatus] at hadded
      · rintro ⟨hsame, -⟩
        rw [hsame]
        exact ⟨h.of_unchanged m.unchanged_refresh, m.unchanged_refresh⟩

/-- On stores that agree, the condition on a call is exact. -/
theorem agreesAfter_iff (h : m.Agrees) (op : Operation) : m.AgreesAfter op ↔ m.Sound op := by
  cases op with
  | registerExtension info registry rand uuid =>
      exact agreesAfter_registerExtension_iff h info registry rand uuid
  | deregisterExtension uuid =>
      refine iff_of_true ⟨?_, trivial⟩ trivial
      rw [step, deregisterExtension]
      split
      · refine h.removed rfl fun other hother => ?_
        dsimp only
        rw [Std.ExtTreeMap.getElem?_erase, if_neg (by simpa using Ne.symm hother)]
      · exact h
  | removeBroadcast uuid =>
      exact iff_of_true ⟨h.removed rfl fun _ _ => rfl, trivial⟩ trivial

end Calls

/-! ### Runs of calls -/

/-- No extension is registered, and nothing is external. -/
structure Initial (f : RegistryFactory π) : Prop where
  extensions : f.extensions_ = ∅
  external : ∀ (registry : String) (r : RegistryInterface π),
    f.registries_[registry]? = some r → r.external_ = ∅

theorem agrees_of_initial {f : RegistryFactory π} (h : Initial f) :
    (⟨f, ∅⟩ : ExtensionManager π).Agrees := by
  have hlist : (⟨f, ∅⟩ : ExtensionManager π).extensions.1 = ∅ := by
    ext1 uuid
    rw [getElem?_extensions, h.extensions]
    simp
  constructor
  · simp [hlist]
  · simp [hlist]
  · exact mem_routeUUIDs_of_mem_extensions _
  · intro registry r item uuid hr hitem
    rw [h.external registry r hr] at hitem
    simp at hitem

/-- In every run of calls, the manager agrees with the registry after every call, and no
registration that failed has changed anything, exactly when every call is sound. -/
theorem extensions_agree_throughout_iff {f : RegistryFactory π} (h : Initial f)
    (ops : List Operation) :
    (⟨f, ∅⟩ : ExtensionManager π).Agrees ∧
      (Throughout step AgreesAfter (⟨f, ∅⟩ : ExtensionManager π) ops ↔
        Throughout step Sound (⟨f, ∅⟩ : ExtensionManager π) ops) := by
  refine ⟨agrees_of_initial h, ?_⟩
  apply throughout_iff (R := fun m m' => m = m' ∧ m.Agrees) _ _
    (fun op (_ : op ∈ ops) => trivial)
  · exact ⟨rfl, agrees_of_initial h⟩
  · rintro m m' op ⟨rfl, hagrees⟩ -
    exact agreesAfter_iff hagrees op
  · rintro m m' op ⟨rfl, hagrees⟩ - hsound
    exact ⟨rfl, ((agreesAfter_iff hagrees op).mpr hsound).1⟩

/-- A pass of the watcher is a run of removals. -/
theorem removeGone_eq (gone : List (RouteUUID × ℕ)) (failures_ : Failures)
    (m : ExtensionManager π) :
    { m with factory := (removeGone gone (failures_, m.factory)).2 } =
      ((gone.filter fun e => e.2 > 1).map fun e => Operation.removeBroadcast e.1).foldl step m := by
  induction gone generalizing failures_ m with
  | nil => rfl
  | cons e rest ih =>
      obtain ⟨uuid, count⟩ := e
      rw [removeGone]
      by_cases hcount : count > 1
      · rw [if_pos hcount, List.filter_cons_of_pos (by simpa using hcount), List.map_cons,
          List.foldl_cons, ← ih (failures_.insert uuid 1)]
        rfl
      · rw [if_neg hcount, List.filter_cons_of_neg (by simpa using hcount), ← ih failures_]

theorem Agrees.removals {m : ExtensionManager π} (h : m.Agrees) (gone : List RouteUUID) :
    ((gone.map Operation.removeBroadcast).foldl step m).Agrees := by
  induction gone generalizing m with
  | nil => exact h
  | cons uuid rest ih => exact ih (h.removed rfl fun _ _ => rfl)

theorem Agrees.watch {m : ExtensionManager π} (h : m.Agrees) (probe : RouteUUID → Probe)
    (failures_ : Failures) :
    ({ m with factory := (Registry.watch probe failures_ m.factory).2 } :
      ExtensionManager π).Agrees := by
  have hpass := h.removals
    (((m.factory.routeUUIDs.foldl (watchExtension probe) failures_).toList.filter
      fun e => e.2 > 1).map Prod.fst)
  rw [List.map_map] at hpass
  rw [Registry.watch, removeGone_eq]
  exact hpass

/-! ### Three runs -/

theorem initial_coreFactory : Initial coreFactory where
  extensions := rfl
  external := by
    intro registry r hr
    rw [coreFactory, Std.ExtTreeMap.getElem?_insert, Std.ExtTreeMap.getElem?_insert] at hr
    split at hr
    · obtain rfl := Option.some.inj hr
      rfl
    · split at hr
      · obtain rfl := Option.some.inj hr
        rfl
      · simp at hr

/-- The registration of an extension of the release `1.7.7`. -/
def registration (registry : RegistryBroadcast) (rand : UInt32) : Operation :=
  .registerExtension ⟨"example", "1.0", "1.7.7", "1.7.7"⟩ registry rand 0

theorem extensions_agree_throughout_iff_core :
    (⟨coreFactory, ∅⟩ : ExtensionManager Unit).Agrees ∧
      (Throughout step AgreesAfter (⟨coreFactory, ∅⟩ : ExtensionManager Unit)
          [registration bareTable 7, .removeBroadcast 7] ↔
        Throughout step Sound (⟨coreFactory, ∅⟩ : ExtensionManager Unit)
          [registration bareTable 7, .removeBroadcast 7]) :=
  extensions_agree_throughout_iff initial_coreFactory
    [registration bareTable 7, .removeBroadcast 7]

/-- An extension gets the number of the core, and two that fail leave a number and an item
behind. -/
theorem extension_registrations_not_agree :
    ¬Throughout step AgreesAfter (⟨coreFactory, ∅⟩ : ExtensionManager Unit)
        [registration ∅ 65536] ∧
      ¬Throughout step AgreesAfter (⟨coreFactory, ∅⟩ : ExtensionManager Unit)
        [registration bareTable 7] ∧
      ¬Throughout step AgreesAfter (⟨coreFactory, ∅⟩ : ExtensionManager Unit)
        [registration unknownRegistry 7] := by
  refine ⟨?_, ?_, ?_⟩
  · rintro ⟨⟨hagrees, -⟩, -⟩
    have hcore := hagrees.core
    revert hcore
    decide +kernel
  · rintro ⟨⟨-, hundone⟩, -⟩
    have hsame := (hundone (by decide +kernel)).factory
    have hregistered := congrArg (fun f => f.extensions_.contains 7) hsame
    revert hregistered
    decide +kernel
  · rintro ⟨⟨hagrees, -⟩, -⟩
    have hexternal : (((⟨coreFactory, ∅⟩ : ExtensionManager Unit).step
        (registration unknownRegistry 7)).factory.registries_["config"]?.map
          fun r => r.external_["c"]?) = some (some 7) := by
      decide +kernel
    obtain ⟨r, hr, hitem⟩ := Option.map_eq_some_iff.mp hexternal
    have hlisted := hagrees.listed "config" r "c" 7 hr hitem
    revert hlisted
    decide +kernel

end ExtensionManager

end Osquery.Registry
