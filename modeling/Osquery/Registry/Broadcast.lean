import Osquery.Registry.Interface

/-!
# Broadcasts that are added wholly or not at all

A broadcast that is refused at the start changes nothing, and one whose registries are all
known and accept every item is added. In between the factory stops, and what it has added
stays unless it is undone: not at all when a registry is unknown, and without the route of
the rejected item otherwise. The extension is recorded although it was not added.

## Implementation notes

The registries of a broadcast are looked at in their order, up to the first that stops the
pass. Undoing stops with an exception at an unknown registry, before the extension is
recorded.
-/

namespace Osquery.Registry

open Core Core.Rows Foundation.Changes

variable {π : Type}

namespace RegistryInterface

variable (r : RegistryInterface π) (uuid : RouteUUID)

/-- The plugin type accepts the route. -/
def accepts (route : String × PluginResponse) : Bool := (r.addExternalPlugin route.1 route.2).ok

/-- The routes before the first one that is rejected. -/
def accepted (routes : List (String × PluginResponse)) : List (String × PluginResponse) :=
  routes.takeWhile r.accepts

/-- The first route that is rejected, if there is one. -/
def rejected (routes : List (String × PluginResponse)) : List (String × PluginResponse) :=
  (routes.dropWhile r.accepts).take 1

/-- Some routes with the extension that serves them, and some without. -/
def routed (served unserved : List (String × PluginResponse)) : RegistryInterface π :=
  { r with
    external_ := served.foldl (fun t route => t.insert route.1 uuid) r.external_
    routes_ := (served ++ unserved).foldl (fun t route => t.insert route.1 route.2) r.routes_ }

/-- Nothing in the registry is served by the extension. -/
def Without : Prop := ∀ item : String, r.external_[item]? ≠ some uuid

/-- The item is not known as an external one. -/
def New (item : String) : Prop := r.external_[item]? = none ∧ r.routes_[item]? = none

/-- The routes are there, served by the extension. -/
def Has (routes : RegistryRoutes) : Prop :=
  ∀ route ∈ routes.toList,
    r.external_[route.1]? = some uuid ∧ r.routes_[route.1]? = some route.2

/-- Undoing the addition of the routes leaves the registry as it was. -/
def Restores (routes : List (String × PluginResponse)) : Prop :=
  r.Without uuid ∧ (∀ route ∈ r.accepted routes, r.New route.1) ∧
    ∀ route ∈ r.rejected routes, r.routes_[route.1]? = some route.2

theorem eq_self_iff (external_ : Std.ExtTreeMap String RouteUUID)
    (routes_ : Std.ExtTreeMap String PluginResponse) :
    { r with external_ := external_, routes_ := routes_ } = r ↔
      (∀ item : String, external_[item]? = r.external_[item]?) ∧
        ∀ item : String, routes_[item]? = r.routes_[item]? := by
  constructor
  · intro h
    have hexternal := congrArg RegistryInterface.external_ h
    have hroutes := congrArg RegistryInterface.routes_ h
    dsimp only at hexternal hroutes
    simp [hexternal, hroutes]
  · rintro ⟨hexternal, hroutes⟩
    obtain rfl := Std.ExtTreeMap.ext_getElem? hexternal
    obtain rfl := Std.ExtTreeMap.ext_getElem? hroutes
    rfl

theorem addExternal_cons_of_accepts {route : String × PluginResponse}
    (h : r.accepts route = true) (routes : List (String × PluginResponse)) :
    r.addExternal uuid (route :: routes) = (r.routed uuid [route] []).addExternal uuid routes := by
  unfold accepts at h
  simp only [addExternal, h, if_true]
  rfl

theorem addExternal_cons_of_rejects {route : String × PluginResponse}
    (h : ¬ r.accepts route = true) (routes : List (String × PluginResponse)) :
    r.addExternal uuid (route :: routes) =
      (r.addExternalPlugin route.1 route.2, r.routed uuid [] [route]) := by
  unfold accepts at h
  simp only [addExternal, h]
  rfl

/-- The accepted routes are added with their extension, a rejected one without. -/
theorem addExternal_eq (routes : List (String × PluginResponse)) :
    (r.addExternal uuid routes).2 = r.routed uuid (r.accepted routes) (r.rejected routes) ∧
      ((r.addExternal uuid routes).1.ok = true ↔ r.rejected routes = []) := by
  induction routes generalizing r with
  | nil => exact ⟨rfl, by simp [addExternal, rejected, Status.ok, Status.success]⟩
  | cons route routes ih =>
      by_cases h : r.accepts route = true
      · have haccepted : r.accepted (route :: routes) = route :: r.accepted routes :=
          List.takeWhile_cons_of_pos h
        have hrejected : r.rejected (route :: routes) = r.rejected routes := by
          rw [rejected, List.dropWhile_cons_of_pos h, rejected]
        obtain ⟨hrouted, hstatus⟩ := ih (r.routed uuid [route] [])
        rw [r.addExternal_cons_of_accepts uuid h, hrouted, hstatus, haccepted, hrejected]
        exact ⟨rfl, Iff.rfl⟩
      · rw [r.addExternal_cons_of_rejects uuid h, accepted, rejected,
          List.takeWhile_cons_of_neg h, List.dropWhile_cons_of_neg h]
        exact ⟨rfl, by simpa [accepts] using h⟩

theorem getElem?_external_routed_of_mem {served : List (String × PluginResponse)}
    (hnodup : (served.map Prod.fst).Nodup) (unserved : List (String × PluginResponse))
    {route : String × PluginResponse} (h : route ∈ served) :
    (r.routed uuid served unserved).external_[route.1]? = some uuid :=
  getElem?_insertAll_of_mem hnodup (fun _ => uuid) h

theorem getElem?_external_routed_of_not_mem {served : List (String × PluginResponse)}
    (unserved : List (String × PluginResponse)) {item : String}
    (h : item ∉ served.map Prod.fst) :
    (r.routed uuid served unserved).external_[item]? = r.external_[item]? :=
  getElem?_insertAll_of_not_mem h fun _ => uuid

theorem getElem?_routes_routed_of_mem {served unserved : List (String × PluginResponse)}
    (hnodup : ((served ++ unserved).map Prod.fst).Nodup)
    {route : String × PluginResponse} (h : route ∈ served ++ unserved) :
    (r.routed uuid served unserved).routes_[route.1]? = some route.2 :=
  getElem?_insertAll_of_mem hnodup Prod.snd h

theorem getElem?_routes_routed_of_not_mem {served unserved : List (String × PluginResponse)}
    {item : String} (h : item ∉ (served ++ unserved).map Prod.fst) :
    (r.routed uuid served unserved).routes_[item]? = r.routes_[item]? :=
  getElem?_insertAll_of_not_mem h Prod.snd

theorem nodup_served {served unserved : List (String × PluginResponse)}
    (hnodup : ((served ++ unserved).map Prod.fst).Nodup) : (served.map Prod.fst).Nodup := by
  rw [List.map_append] at hnodup
  exact (List.nodup_append.mp hnodup).1

theorem not_served {served unserved : List (String × PluginResponse)}
    (hnodup : ((served ++ unserved).map Prod.fst).Nodup) {route : String × PluginResponse}
    (h : route ∈ unserved) : route.1 ∉ served.map Prod.fst := by
  rw [List.map_append] at hnodup
  intro hmem
  exact (List.nodup_append.mp hnodup).2.2 _ hmem _ (List.mem_map_of_mem h) rfl

/-- Routes change nothing exactly when they are all there already. -/
theorem routed_eq_self_iff {served unserved : List (String × PluginResponse)}
    (hnodup : ((served ++ unserved).map Prod.fst).Nodup) :
    r.routed uuid served unserved = r ↔
      (∀ route ∈ served, r.external_[route.1]? = some uuid) ∧
        ∀ route ∈ served ++ unserved, r.routes_[route.1]? = some route.2 := by
  have hserved := nodup_served hnodup
  rw [routed, eq_self_iff]
  constructor
  · rintro ⟨hexternal, hroutes⟩
    constructor
    · intro route hroute
      rw [← hexternal]
      exact r.getElem?_external_routed_of_mem uuid hserved unserved hroute
    · intro route hroute
      rw [← hroutes]
      exact r.getElem?_routes_routed_of_mem uuid hnodup hroute
  · rintro ⟨hexternal, hroutes⟩
    constructor
    · intro item
      by_cases hitem : item ∈ served.map Prod.fst
      · obtain ⟨route, hroute, rfl⟩ := List.mem_map.mp hitem
        rw [hexternal route hroute]
        exact r.getElem?_external_routed_of_mem uuid hserved unserved hroute
      · exact r.getElem?_external_routed_of_not_mem uuid unserved hitem
    · intro item
      by_cases hitem : item ∈ (served ++ unserved).map Prod.fst
      · obtain ⟨route, hroute, rfl⟩ := List.mem_map.mp hitem
        rw [hroutes route hroute]
        exact r.getElem?_routes_routed_of_mem uuid hnodup hroute
      · exact r.getElem?_routes_routed_of_not_mem uuid hitem

/-! ### What is removed -/

theorem mem_removed_items (item : String) :
    item ∈ (r.external_.toList.filter fun item => item.2 == uuid).map Prod.fst ↔
      r.external_[item]? = some uuid := by
  simp only [List.mem_map, List.mem_filter, beq_iff_eq, Prod.exists,
    Std.ExtTreeMap.mem_toList_iff_getElem?_eq_some]
  aesop

theorem getElem?_external_removeExternal (item : String) :
    (r.removeExternal uuid).external_[item]? =
      if r.external_[item]? = some uuid then none else r.external_[item]? := by
  simp only [removeExternal, getElem?_eraseAll, mem_removed_items]

theorem getElem?_routes_removeExternal (item : String) :
    (r.removeExternal uuid).routes_[item]? =
      if r.external_[item]? = some uuid then none else r.routes_[item]? := by
  simp only [removeExternal, getElem?_eraseAll, mem_removed_items]

theorem removeExternal_eq_self_iff : r.removeExternal uuid = r ↔ r.Without uuid := by
  constructor
  · intro h item hitem
    have hexternal := r.getElem?_external_removeExternal uuid item
    rw [h, if_pos hitem, hitem] at hexternal
    cases hexternal
  · intro h
    apply (r.eq_self_iff _ _).mpr
    constructor
    · intro item
      have hexternal := r.getElem?_external_removeExternal uuid item
      rwa [if_neg (h item)] at hexternal
    · intro item
      have hroutes := r.getElem?_routes_removeExternal uuid item
      rwa [if_neg (h item)] at hroutes

section Undone

variable {served unserved : List (String × PluginResponse)}
  (hnodup : ((served ++ unserved).map Prod.fst).Nodup)

include hnodup

/-- What is served by the extension after some routes were added. -/
theorem external_routed_eq_iff (item : String) :
    (r.routed uuid served unserved).external_[item]? = some uuid ↔
      item ∈ served.map Prod.fst ∨ r.external_[item]? = some uuid := by
  by_cases hitem : item ∈ served.map Prod.fst
  · obtain ⟨route, hroute, rfl⟩ := List.mem_map.mp hitem
    refine iff_of_true ?_ (.inl hitem)
    exact r.getElem?_external_routed_of_mem uuid (nodup_served hnodup) unserved hroute
  · rw [r.getElem?_external_routed_of_not_mem uuid unserved hitem, or_iff_right hitem]

theorem external_undone (item : String) :
    ((r.routed uuid served unserved).removeExternal uuid).external_[item]? =
      if item ∈ served.map Prod.fst ∨ r.external_[item]? = some uuid then none
      else r.external_[item]? := by
  rw [getElem?_external_removeExternal]
  simp only [r.external_routed_eq_iff uuid hnodup]
  split
  · rfl
  · next hitem =>
      exact r.getElem?_external_routed_of_not_mem uuid unserved (not_or.mp hitem).1

theorem routes_undone (item : String) :
    ((r.routed uuid served unserved).removeExternal uuid).routes_[item]? =
      if item ∈ served.map Prod.fst ∨ r.external_[item]? = some uuid then none
      else (r.routed uuid served unserved).routes_[item]? := by
  rw [getElem?_routes_removeExternal]
  simp only [r.external_routed_eq_iff uuid hnodup]

/-- Adding routes and removing them again changes nothing exactly when they were new, apart
from a route without its extension, which stays. -/
theorem removeExternal_routed_eq_self_iff :
    (r.routed uuid served unserved).removeExternal uuid = r ↔
      r.Without uuid ∧ (∀ route ∈ served, r.New route.1) ∧
        ∀ route ∈ unserved, r.routes_[route.1]? = some route.2 := by
  have hexternal := r.external_undone uuid hnodup
  have hroutes := r.routes_undone uuid hnodup
  constructor
  · intro h
    rw [h] at hexternal hroutes
    have hwithout : r.Without uuid := by
      intro item hitem
      have hnone := hexternal item
      rw [if_pos (.inr hitem), hitem] at hnone
      cases hnone
    refine ⟨hwithout, ?_, ?_⟩
    · intro route hroute
      have hserved := List.mem_map_of_mem (f := Prod.fst) hroute
      constructor
      · exact (hexternal route.1).trans (if_pos (.inl hserved))
      · exact (hroutes route.1).trans (if_pos (.inl hserved))
    · intro route hroute
      calc r.routes_[route.1]?
        _ = (r.routed uuid served unserved).routes_[route.1]? :=
            (hroutes route.1).trans
              (if_neg (not_or.mpr ⟨not_served hnodup hroute, hwithout route.1⟩))
        _ = some route.2 :=
            r.getElem?_routes_routed_of_mem uuid hnodup (List.mem_append_right served hroute)
  · rintro ⟨hwithout, hnew, hkept⟩
    apply (r.eq_self_iff _ _).mpr
    constructor
    · intro item
      apply (hexternal item).trans
      split
      · next hitem =>
          obtain ⟨route, hroute, rfl⟩ := List.mem_map.mp (hitem.resolve_right (hwithout item))
          exact (hnew route hroute).1.symm
      · rfl
    · intro item
      apply (hroutes item).trans
      split
      · next hitem =>
          obtain ⟨route, hroute, rfl⟩ := List.mem_map.mp (hitem.resolve_right (hwithout item))
          exact (hnew route hroute).2.symm
      · next hitem =>
          by_cases hun : item ∈ unserved.map Prod.fst
          · obtain ⟨route, hroute, rfl⟩ := List.mem_map.mp hun
            rw [hkept route hroute]
            exact r.getElem?_routes_routed_of_mem uuid hnodup (List.mem_append_right served hroute)
          · apply r.getElem?_routes_routed_of_not_mem uuid
            simp only [List.map_append, List.mem_append, not_or]
            exact ⟨(not_or.mp hitem).1, hun⟩

end Undone

/-- The registry with all routes of a broadcast. -/
def withRoutes (routes : RegistryRoutes) : RegistryInterface π :=
  { r with
    external_ := r.external_ ∪ routes.map fun _ _ => uuid
    routes_ := r.routes_ ∪ routes }

theorem routed_eq_withRoutes (routes : RegistryRoutes) :
    r.routed uuid routes.toList [] = r.withRoutes uuid routes := by
  have hnodup := nodup_keys_toList routes
  have hmem : ∀ item : String, routes[item]? = none → item ∉ routes.toList.map Prod.fst := by
    intro item hitem hmem
    obtain ⟨route, hroute, rfl⟩ := List.mem_map.mp hmem
    rw [Std.ExtTreeMap.mem_toList_iff_getElem?_eq_some.mp hroute] at hitem
    cases hitem
  rw [routed, List.append_nil, withRoutes]
  congr 1
  · ext1 item
    rw [Std.ExtTreeMap.getElem?_union, Std.ExtTreeMap.getElem?_map]
    cases hitem : routes[item]? with
    | none => exact getElem?_insertAll_of_not_mem (hmem item hitem) fun _ => uuid
    | some info =>
        exact getElem?_insertAll_of_mem hnodup (fun _ => uuid)
          (Std.ExtTreeMap.mem_toList_iff_getElem?_eq_some.mpr hitem)
  · ext1 item
    rw [Std.ExtTreeMap.getElem?_union]
    cases hitem : routes[item]? with
    | none => exact getElem?_insertAll_of_not_mem (hmem item hitem) Prod.snd
    | some info =>
        exact getElem?_insertAll_of_mem hnodup Prod.snd
          (Std.ExtTreeMap.mem_toList_iff_getElem?_eq_some.mpr hitem)

theorem nodup_accepted_rejected (routes : RegistryRoutes) :
    ((r.accepted routes.toList ++ r.rejected routes.toList).map Prod.fst).Nodup := by
  have hsublist : List.Sublist (r.accepted routes.toList ++ r.rejected routes.toList)
      routes.toList := by
    have hdrop := (List.take_sublist 1 (routes.toList.dropWhile r.accepts)).append_left
      (r.accepted routes.toList)
    rwa [accepted, List.takeWhile_append_dropWhile] at hdrop
  exact (nodup_keys_toList routes).sublist (hsublist.map Prod.fst)

/-- Adding routes and removing them again, whatever was accepted of them. -/
theorem removeExternal_addExternal_eq_self_iff (routes : RegistryRoutes) :
    (r.addExternal uuid routes.toList).2.removeExternal uuid = r ↔
      r.Restores uuid routes.toList := by
  rw [(r.addExternal_eq uuid _).1]
  exact r.removeExternal_routed_eq_self_iff uuid (r.nodup_accepted_rejected routes)

theorem withRoutes_eq_self_iff (routes : RegistryRoutes) :
    r.withRoutes uuid routes = r ↔ r.Has uuid routes := by
  have hnodup : ((routes.toList ++ []).map Prod.fst).Nodup := by
    rw [List.append_nil]
    exact nodup_keys_toList routes
  rw [← r.routed_eq_withRoutes, r.routed_eq_self_iff uuid hnodup, List.append_nil]
  exact forall₂_and.symm

end RegistryInterface

/-! ### The passes of the factory -/

namespace RegistryFactory

variable (f : RegistryFactory π) (uuid : RouteUUID)

/-- The registry is there. -/
def knows (registry : String × RegistryRoutes) : Bool := (f.registries_[registry.1]?).isSome

/-- The registry is there and accepts its routes. -/
def takes (registry : String × RegistryRoutes) : Bool :=
  match f.registries_[registry.1]? with
  | none => false
  | some r => registry.2.toList.all r.accepts

def changed (changes : List (String × (RegistryInterface π → RegistryInterface π))) :
    RegistryFactory π :=
  { f with registries_ := changeAll f.registries_ changes }

/-- What adding the routes of some registries does to each of them. -/
def additions (registries : List (String × RegistryRoutes)) :
    List (String × (RegistryInterface π → RegistryInterface π)) :=
  registries.map fun registry =>
    (registry.1, fun r => (r.addExternal uuid registry.2.toList).2)

def removals (registries : List (String × RegistryRoutes)) :
    List (String × (RegistryInterface π → RegistryInterface π)) :=
  registries.map fun registry => (registry.1, fun r => r.removeExternal uuid)

theorem changed_eq_self_iff
    (changes : List (String × (RegistryInterface π → RegistryInterface π))) :
    f.changed changes = f ↔ changeAll f.registries_ changes = f.registries_ := by
  constructor
  · exact congrArg RegistryFactory.registries_
  · intro h
    rw [changed, h]

variable {f} in
theorem insert_eq_changed {registry : String} {r : RegistryInterface π}
    (h : f.registries_[registry]? = some r) (g : RegistryInterface π → RegistryInterface π) :
    { f with registries_ := f.registries_.insert registry (g r) } =
      f.changed [(registry, g)] := by
  rw [changed]
  congr 1
  ext1 name
  rw [getElem?_changeAll, Std.ExtTreeMap.getElem?_insert]
  by_cases hname : registry = name
  · subst name
    simp [h, Foundation.Changes.changed]
  · cases f.registries_[name]? <;> simp [hname, Foundation.Changes.changed]

theorem knows_changed (changes : List (String × (RegistryInterface π → RegistryInterface π))) :
    (f.changed changes).knows = f.knows := by
  ext1 registry
  simp only [knows, changed, getElem?_changeAll, Option.isSome_map]

theorem accepts_addExternal (r : RegistryInterface π)
    (routes : List (String × PluginResponse)) :
    (r.addExternal uuid routes).2.accepts = r.accepts := by
  rw [(r.addExternal_eq uuid routes).1]
  rfl

theorem takes_changed_additions (registry : String × RegistryRoutes) :
    (f.changed (additions uuid [registry])).takes = f.takes := by
  ext1 other
  simp only [takes, changed, getElem?_changeAll]
  cases f.registries_[other.1]? with
  | none => rfl
  | some r =>
      simp only [Option.map_some, Foundation.Changes.changed, additions, List.map_cons,
        List.map_nil, List.foldl_cons, List.foldl_nil]
      split
      · rw [accepts_addExternal]
      · rfl

theorem exists_of_takes {registry : String × RegistryRoutes} (h : f.takes registry = true) :
    ∃ r, f.registries_[registry.1]? = some r ∧ registry.2.toList.all r.accepts = true := by
  unfold takes at h
  split at h
  · cases h
  · exact ⟨_, ‹_›, h⟩

theorem rejected_eq_nil_iff (r : RegistryInterface π) (routes : List (String × PluginResponse)) :
    r.rejected routes = [] ↔ routes.all r.accepts = true := by
  simp [RegistryInterface.rejected, List.dropWhile_eq_nil_iff]

/-- The pass adds the routes of the registries that take them and goes on. -/
theorem addEach_append {taken : List (String × RegistryRoutes)}
    (h : ∀ registry ∈ taken, f.takes registry = true) (rest : List (String × RegistryRoutes))
    (status : Status) (hstatus : status.ok = true) :
    ∃ status', status'.ok = true ∧ f.addEach uuid (taken ++ rest) status =
      (f.changed (additions uuid taken)).addEach uuid rest status' := by
  induction taken generalizing f status with
  | nil => exact ⟨status, hstatus, rfl⟩
  | cons registry taken ih =>
      obtain ⟨r, hr, hall⟩ := f.exists_of_takes (h registry (List.mem_cons_self ..))
      have hok : (r.addExternal uuid registry.2.toList).1.ok = true :=
        (r.addExternal_eq uuid _).2.mpr ((rejected_eq_nil_iff r _).mpr hall)
      have hrest : ∀ other ∈ taken, (f.changed (additions uuid [registry])).takes other = true := by
        intro other hother
        rw [takes_changed_additions]
        exact h other (List.mem_cons_of_mem registry hother)
      obtain ⟨status', hstatus', heq⟩ := ih (f.changed (additions uuid [registry])) hrest _ hok
      refine ⟨status', hstatus', ?_⟩
      simp only [List.cons_append, addEach, hr, hok, if_true]
      rw [insert_eq_changed hr fun r => (r.addExternal uuid registry.2.toList).2]
      exact heq

/-- Undoing removes the routes of the registries up to the first that is unknown. -/
theorem removeEach_eq (broadcast : List (String × RegistryRoutes)) :
    (f.removeEach uuid broadcast).2 =
        f.changed (removals uuid (broadcast.takeWhile f.knows)) ∧
      ((f.removeEach uuid broadcast).1 = .ok () ↔ broadcast.all f.knows = true) := by
  induction broadcast generalizing f with
  | nil => exact ⟨rfl, by simp [removeEach]⟩
  | cons registry broadcast ih =>
      cases hr : f.registries_[registry.1]? with
      | none =>
          have hknows : ¬ f.knows registry = true := by simp [knows, hr]
          rw [List.takeWhile_cons_of_neg hknows]
          simp only [removeEach, hr]
          exact ⟨rfl, by simp [hknows]⟩
      | some r =>
          have hknows : f.knows registry = true := by simp [knows, hr]
          obtain ⟨hstate, hresult⟩ := ih (f.changed (removals uuid [registry]))
          rw [knows_changed] at hstate hresult
          rw [List.takeWhile_cons_of_pos hknows, List.all_cons, hknows, Bool.true_and]
          simp only [removeEach, hr]
          rw [insert_eq_changed hr fun r => r.removeExternal uuid]
          exact ⟨hstate, hresult⟩

/-! ### Atomic broadcasts -/

variable (broadcast : RegistryBroadcast)

/-- The registries before the first that is unknown or rejects a route. -/
def taken : List (String × RegistryRoutes) := broadcast.toList.takeWhile f.takes

/-- The registries from the first that is unknown or rejects a route. -/
def remaining : List (String × RegistryRoutes) := broadcast.toList.dropWhile f.takes

theorem taken_append_remaining : f.taken broadcast ++ f.remaining broadcast = broadcast.toList :=
  List.takeWhile_append_dropWhile

theorem takes_of_mem_taken {registry : String × RegistryRoutes}
    (h : registry ∈ f.taken broadcast) : f.takes registry = true :=
  List.mem_takeWhile_imp h

/-- A broadcast that is not tried. -/
def Refused : Prop :=
  f.extensions_.contains uuid = true ∨
    f.allow_duplicates_ = false ∧
      ∃ item ∈ broadcastItems broadcast, f.exists_ item.1 item.2 = true

theorem addBroadcast_of_refused (h : f.Refused uuid broadcast) :
    ∃ status, status.ok = false ∧ f.addBroadcast uuid broadcast = (.ok status, f) := by
  by_cases huuid : f.extensions_.contains uuid = true
  · refine ⟨_, ?_, by rw [addBroadcast, if_pos huuid]⟩
    rfl
  · obtain ⟨hallow, item, hitem, hexists⟩ := h.resolve_left huuid
    cases hfind : (broadcastItems broadcast).find? fun item => f.exists_ item.1 item.2 with
    | none => exact absurd hexists (List.find?_eq_none.mp hfind item hitem)
    | some found =>
        refine ⟨_, ?_, by rw [addBroadcast, if_neg huuid, if_neg (by simp [hallow]), hfind]⟩
        rfl

theorem addBroadcast_of_not_refused (h : ¬ f.Refused uuid broadcast) :
    f.addBroadcast uuid broadcast = f.addRegistries uuid broadcast := by
  obtain ⟨huuid, hitems⟩ := not_or.mp h
  rw [addBroadcast, if_neg huuid]
  by_cases hallow : f.allow_duplicates_ = true
  · rw [if_pos hallow]
  · have hfind : ((broadcastItems broadcast).find? fun item => f.exists_ item.1 item.2) = none := by
      rw [List.find?_eq_none]
      intro item hitem hexists
      exact hitems ⟨by simpa using hallow, item, hitem, hexists⟩
    rw [if_neg hallow, hfind]

/-- Every registry of the broadcast with all of its routes, and the extension recorded. -/
def withBroadcast : RegistryFactory π :=
  { f with
    registries_ := f.registries_.map fun name r =>
      match broadcast[name]? with
      | none => r
      | some routes => r.withRoutes uuid routes
    extensions_ := f.extensions_.insert uuid }

theorem nodup_taken_append_remaining :
    ((f.taken broadcast ++ f.remaining broadcast).map Prod.fst).Nodup := by
  rw [taken_append_remaining]
  exact nodup_keys_toList broadcast

variable {f} in
theorem addExternal_of_takes {registry : String × RegistryRoutes}
    (h : f.takes registry = true) {r : RegistryInterface π}
    (hr : f.registries_[registry.1]? = some r) :
    (r.addExternal uuid registry.2.toList).2 = r.withRoutes uuid registry.2 := by
  obtain ⟨r', hr', hall⟩ := f.exists_of_takes h
  obtain rfl : r = r' := Option.some.inj (hr.symm.trans hr')
  have haccepted : r.accepted registry.2.toList = registry.2.toList :=
    List.takeWhile_eq_self_iff.mpr (List.all_eq_true.mp hall)
  rw [(r.addExternal_eq uuid _).1, haccepted, (rejected_eq_nil_iff r _).mpr hall]
  exact r.routed_eq_withRoutes uuid registry.2

theorem changed_eq_withBroadcast (h : f.remaining broadcast = []) :
    { f.changed (additions uuid (f.taken broadcast)) with
      extensions_ := f.extensions_.insert uuid } = f.withBroadcast uuid broadcast := by
  have htaken : f.taken broadcast = broadcast.toList := by
    have happend := f.taken_append_remaining broadcast
    rwa [h, List.append_nil] at happend
  have hkeys : ∀ registries : List (String × RegistryRoutes),
      (additions uuid registries : List (String × (RegistryInterface π → _))).map Prod.fst =
        registries.map Prod.fst := by
    intro registries
    simp [additions]
  simp only [withBroadcast, changed]
  congr 1
  ext1 name
  rw [getElem?_changeAll, Std.ExtTreeMap.getElem?_map]
  cases hr : f.registries_[name]? with
  | none => rfl
  | some r =>
      simp only [Option.map_some, Option.some.injEq]
      cases hname : broadcast[name]? with
      | none =>
          apply changed_of_not_mem
          rw [hkeys, htaken]
          intro hmem
          obtain ⟨registry, hregistry, rfl⟩ := List.mem_map.mp hmem
          rw [Std.ExtTreeMap.mem_toList_iff_getElem?_eq_some.mp hregistry] at hname
          cases hname
      | some routes =>
          have hmem : (name, routes) ∈ f.taken broadcast := by
            rw [htaken]
            exact Std.ExtTreeMap.mem_toList_iff_getElem?_eq_some.mpr hname
          have hnodup : ((additions uuid (f.taken broadcast) :
              List (String × (RegistryInterface π → _))).map Prod.fst).Nodup := by
            rw [hkeys, htaken]
            exact nodup_keys_toList broadcast
          have hchanged := changed_of_mem hnodup (List.mem_map_of_mem hmem) r
          exact hchanged.trans (addExternal_of_takes uuid (f.takes_of_mem_taken broadcast hmem) hr)

theorem knows_of_takes {registry : String × RegistryRoutes} (h : f.takes registry = true) :
    f.knows registry = true := by
  obtain ⟨r, hr, -⟩ := f.exists_of_takes h
  simp [knows, hr]

theorem addRegistries_of_remaining_nil (h : f.remaining broadcast = []) :
    ∃ status, status.ok = true ∧
      f.addRegistries uuid broadcast = (.ok status, f.withBroadcast uuid broadcast) := by
  have htaken : broadcast.toList = f.taken broadcast ++ [] := by
    rw [← h, taken_append_remaining]
  obtain ⟨status, hstatus, heach⟩ := f.addEach_append uuid
    (fun registry => f.takes_of_mem_taken broadcast) [] .success rfl
  refine ⟨status, hstatus, ?_⟩
  simp only [addRegistries, htaken, heach, addEach, hstatus, if_true]
  rw [← f.changed_eq_withBroadcast uuid broadcast h]
  rfl

variable {f broadcast} in
theorem addRegistries_of_unknown {stop : String × RegistryRoutes}
    {rest : List (String × RegistryRoutes)} (h : f.remaining broadcast = stop :: rest)
    (hstop : f.registries_[stop.1]? = none) :
    ∃ status, status.ok = false ∧ f.addRegistries uuid broadcast =
      (.ok status, f.changed (additions uuid (f.taken broadcast))) := by
  have htaken : broadcast.toList = f.taken broadcast ++ stop :: rest := by
    rw [← h, taken_append_remaining]
  obtain ⟨status, hstatus, heach⟩ := f.addEach_append uuid
    (fun registry => f.takes_of_mem_taken broadcast) (stop :: rest) .success rfl
  have hstop' : (f.changed (additions uuid (f.taken broadcast))).registries_[stop.1]? = none := by
    rw [changed, getElem?_changeAll, hstop]
    rfl
  refine ⟨⟨1, "Unknown registry: " ++ stop.1⟩, rfl, ?_⟩
  simp only [addRegistries, htaken, heach, addEach, hstop']

/-- The factory after the registries up to the one that rejects a route were added, and
those up to the next unknown one were undone. -/
def undone (stop : String × RegistryRoutes) (rest : List (String × RegistryRoutes)) :
    RegistryFactory π :=
  f.changed (additions uuid (f.taken broadcast ++ [stop]) ++
    removals uuid ((f.taken broadcast ++ [stop]) ++ rest.takeWhile f.knows))

section Rejected

variable {f broadcast} {stop : String × RegistryRoutes} {rest : List (String × RegistryRoutes)}
  (h : f.remaining broadcast = stop :: rest) {r : RegistryInterface π}
  (hstop : f.registries_[stop.1]? = some r)

include h

theorem toList_eq_of_remaining : broadcast.toList = f.taken broadcast ++ stop :: rest := by
  rw [← h, taken_append_remaining]

theorem not_takes_of_remaining : f.takes stop = false := by
  have hhead := List.head?_dropWhile_not f.takes broadcast.toList
  rw [remaining] at h
  rwa [h] at hhead

theorem rejected_ne_nil_of_remaining {r : RegistryInterface π}
    (hstop : f.registries_[stop.1]? = some r) : r.rejected stop.2.toList ≠ [] := by
  have hnot := not_takes_of_remaining h
  rw [takes, hstop] at hnot
  rw [Ne, rejected_eq_nil_iff]
  simpa using hnot

theorem not_mem_taken_of_remaining : stop.1 ∉ (f.taken broadcast).map Prod.fst := by
  have hnodup := f.nodup_taken_append_remaining broadcast
  rw [h, List.map_append] at hnodup
  intro hmem
  exact (List.nodup_append.mp hnodup).2.2 _ hmem _ (List.mem_cons_self ..) rfl

include hstop

/-- The pass stops at the registry that rejects a route, after adding to it. -/
theorem addEach_of_rejected :
    ∃ status, status.ok = false ∧ f.addEach uuid broadcast.toList .success =
      (.finished status, f.changed (additions uuid (f.taken broadcast ++ [stop]))) := by
  obtain ⟨status, -, heach⟩ := f.addEach_append uuid
    (fun registry => f.takes_of_mem_taken broadcast) (stop :: rest) .success rfl
  have hstop' : (f.changed (additions uuid (f.taken broadcast))).registries_[stop.1]? = some r := by
    rw [changed, getElem?_changeAll, hstop, Option.map_some, changed_of_not_mem]
    simpa [additions] using not_mem_taken_of_remaining h
  have hrejects : (r.addExternal uuid stop.2.toList).1.ok = false := by
    rw [← Bool.not_eq_true, (r.addExternal_eq uuid _).2]
    exact rejected_ne_nil_of_remaining h hstop
  refine ⟨(r.addExternal uuid stop.2.toList).1, hrejects, ?_⟩
  rw [toList_eq_of_remaining h, heach]
  simp only [addEach, hstop', hrejects]
  rw [insert_eq_changed hstop' fun r => (r.addExternal uuid stop.2.toList).2]
  simp [changed, additions, changeAll]

theorem knows_of_mem_added {registry : String × RegistryRoutes}
    (hregistry : registry ∈ f.taken broadcast ++ [stop]) : f.knows registry = true := by
  obtain hregistry | hregistry := List.mem_append.mp hregistry
  · exact f.knows_of_takes (f.takes_of_mem_taken broadcast hregistry)
  · obtain rfl := List.mem_singleton.mp hregistry
    simp [knows, hstop]

theorem takeWhile_knows :
    broadcast.toList.takeWhile f.knows =
      (f.taken broadcast ++ [stop]) ++ rest.takeWhile f.knows := by
  rw [toList_eq_of_remaining h, List.append_cons,
    List.takeWhile_append_of_pos fun registry => knows_of_mem_added h hstop]

theorem all_knows : broadcast.toList.all f.knows = rest.all f.knows := by
  have hadded : (f.taken broadcast ++ [stop]).all f.knows = true :=
    List.all_eq_true.mpr fun registry => knows_of_mem_added h hstop
  rw [toList_eq_of_remaining h, List.append_cons, List.all_append, hadded, Bool.true_and]

theorem addRegistries_of_rejected :
    if rest.all f.knows then
      ∃ status, status.ok = false ∧ f.addRegistries uuid broadcast =
        (.ok status, { f.undone uuid broadcast stop rest with
          extensions_ := f.extensions_.insert uuid })
    else
      ∃ what, f.addRegistries uuid broadcast = (.error what, f.undone uuid broadcast stop rest) := by
  obtain ⟨status, hstatus, heach⟩ := addEach_of_rejected uuid h hstop
  obtain ⟨hstate, hresult⟩ := removeEach_eq
    (f.changed (additions uuid (f.taken broadcast ++ [stop]))) uuid broadcast.toList
  have hundone : ((f.changed (additions uuid (f.taken broadcast ++ [stop]))).removeEach uuid
      broadcast.toList).2 = f.undone uuid broadcast stop rest := by
    rw [hstate, knows_changed, takeWhile_knows h hstop]
    simp only [undone, changed, changeAll, List.foldl_append]
  rw [knows_changed, all_knows h hstop] at hresult
  simp only [addRegistries, heach, hstatus]
  generalize (f.changed (additions uuid (f.taken broadcast ++ [stop]))).removeEach uuid
    broadcast.toList = result at hundone hresult
  obtain ⟨outcome, after⟩ := result
  obtain rfl : after = f.undone uuid broadcast stop rest := hundone
  cases outcome with
  | error what =>
      have hall : ¬ rest.all f.knows = true := fun hall => nomatch hresult.mpr hall
      rw [if_neg hall]
      exact ⟨what, rfl⟩
  | ok =>
      rw [if_pos (hresult.mp rfl)]
      exact ⟨status, hstatus, rfl⟩

end Rejected

/-- The caller is told that the broadcast was added. -/
def succeeded : Except String Status → Bool
  | .ok status => status.ok
  | .error _ => false

/-- Either the broadcast is added as it is, or nothing changes. -/
def Atomic : Prop :=
  if succeeded (f.addBroadcast uuid broadcast).1 then
    (f.addBroadcast uuid broadcast).2 = f.withBroadcast uuid broadcast
  else (f.addBroadcast uuid broadcast).2 = f

/-- The broadcast is not tried, or every registry takes its routes, or what was added leaves
no trace: before an unknown registry nothing is new, and after a rejected route an exception
ends the undoing, which has met nothing else and restored the rest. -/
def Clean : Prop :=
  f.Refused uuid broadcast ∨
    match f.remaining broadcast with
    | [] => True
    | stop :: rest =>
        match f.registries_[stop.1]? with
        | none => ∀ registry ∈ f.taken broadcast, ∀ r, f.registries_[registry.1]? = some r →
            r.Has uuid registry.2
        | some _ => rest.all f.knows = false ∧
            (∀ registry ∈ f.taken broadcast ++ [stop], ∀ r,
              f.registries_[registry.1]? = some r → r.Restores uuid registry.2.toList) ∧
            ∀ registry ∈ rest.takeWhile f.knows, ∀ r,
              f.registries_[registry.1]? = some r → r.Without uuid

theorem changed_additions_eq_self_iff :
    f.changed (additions uuid (f.taken broadcast)) = f ↔
      ∀ registry ∈ f.taken broadcast, ∀ r, f.registries_[registry.1]? = some r →
        r.Has uuid registry.2 := by
  have hnodup : ((f.taken broadcast).map Prod.fst).Nodup := by
    have happend := f.nodup_taken_append_remaining broadcast
    rw [List.map_append] at happend
    exact (List.nodup_append.mp happend).1
  rw [changed_eq_self_iff, additions, changeAll_eq_self_iff f.registries_ hnodup]
  constructor
  · intro h registry hregistry r hr
    have htakes := f.takes_of_mem_taken broadcast hregistry
    have hself := h registry hregistry r hr
    rw [addExternal_of_takes uuid htakes hr] at hself
    exact (r.withRoutes_eq_self_iff uuid _).mp hself
  · intro h registry hregistry r hr
    have htakes := f.takes_of_mem_taken broadcast hregistry
    rw [addExternal_of_takes uuid htakes hr]
    exact (r.withRoutes_eq_self_iff uuid _).mpr (h registry hregistry r hr)

variable {f broadcast} in
theorem undone_eq_self_iff {stop : String × RegistryRoutes}
    {rest : List (String × RegistryRoutes)} (h : f.remaining broadcast = stop :: rest) :
    f.undone uuid broadcast stop rest = f ↔
      (∀ registry ∈ f.taken broadcast ++ [stop], ∀ r, f.registries_[registry.1]? = some r →
        r.Restores uuid registry.2.toList) ∧
        ∀ registry ∈ rest.takeWhile f.knows, ∀ r, f.registries_[registry.1]? = some r →
          r.Without uuid := by
  have hnodup : (((f.taken broadcast ++ [stop]) ++ rest.takeWhile f.knows).map
      Prod.fst).Nodup := by
    have happend := f.nodup_taken_append_remaining broadcast
    rw [h, List.append_cons] at happend
    exact happend.sublist (((List.takeWhile_sublist _).append_left _).map Prod.fst)
  rw [undone, changed_eq_self_iff, additions, removals,
    changeAll_undo_eq_self_iff f.registries_ _ _ hnodup]
  simp only [RegistryInterface.removeExternal_addExternal_eq_self_iff,
    RegistryInterface.removeExternal_eq_self_iff]

/-- A broadcast is atomic exactly when it is not tried, is taken or leaves no trace. -/
theorem atomic_iff_clean : f.Atomic uuid broadcast ↔ f.Clean uuid broadcast := by
  by_cases hrefused : f.Refused uuid broadcast
  · obtain ⟨status, hstatus, hadd⟩ := f.addBroadcast_of_refused uuid broadcast hrefused
    refine iff_of_true ?_ (.inl hrefused)
    simp [Atomic, hadd, succeeded, hstatus]
  rw [Clean, or_iff_right hrefused, Atomic, f.addBroadcast_of_not_refused uuid broadcast hrefused]
  cases hremaining : f.remaining broadcast with
  | nil =>
      obtain ⟨status, hstatus, hadd⟩ := f.addRegistries_of_remaining_nil uuid broadcast hremaining
      simp [hadd, succeeded, hstatus]
  | cons stop rest =>
      cases hstop : f.registries_[stop.1]? with
      | none =>
          obtain ⟨status, hstatus, hadd⟩ := addRegistries_of_unknown uuid hremaining hstop
          simp only [hadd, succeeded, hstatus, hstop]
          exact f.changed_additions_eq_self_iff uuid broadcast
      | some r =>
          have hadd := addRegistries_of_rejected uuid hremaining hstop
          by_cases hall : rest.all f.knows = true
          · rw [if_pos hall] at hadd
            obtain ⟨status, hstatus, hadd⟩ := hadd
            simp only [hadd, succeeded, hstatus, hstop, hall]
            refine iff_of_false ?_ (by simp)
            intro hself
            have hextensions := congrArg RegistryFactory.extensions_ hself
            have hcontains : f.extensions_.contains uuid = true := by
              rw [← hextensions]
              simp
            exact hrefused (.inl hcontains)
          · rw [if_neg hall] at hadd
            obtain ⟨what, hadd⟩ := hadd
            simp only [Bool.not_eq_true] at hall
            simp only [hadd, succeeded, hstop, hall, true_and]
            exact undone_eq_self_iff uuid hremaining

end RegistryFactory

/-! ### Two broadcasts that leave something behind -/

/-- Plugins of the kinds "config" and "table", which is all that the factory has. -/
def coreFactory : RegistryFactory Unit where
  registries_ := ((∅ : Std.ExtTreeMap String (RegistryInterface Unit)).insert "config"
    { addExternalPlugin := Plugin.addExternal }).insert "table"
      { addExternalPlugin := TablePlugin.addExternal fun _ => .success }

/-- A table without route info. -/
def bareTable : RegistryBroadcast :=
  (∅ : RegistryBroadcast).insert "table" ((∅ : RegistryRoutes).insert "t" [])

/-- A config plugin, and a registry that is not there. -/
def unknownRegistry : RegistryBroadcast :=
  ((∅ : RegistryBroadcast).insert "config" ((∅ : RegistryRoutes).insert "c" [])).insert "other" ∅

theorem broadcasts_not_atomic :
    ¬ coreFactory.Atomic 7 bareTable ∧ ¬ coreFactory.Atomic 7 unknownRegistry := by
  constructor
  · intro h
    have hfails : RegistryFactory.succeeded (coreFactory.addBroadcast 7 bareTable).1 = false := by
      decide
    rw [RegistryFactory.Atomic, hfails] at h
    have hextension := congrArg (fun f => f.extensions_.contains 7) h
    revert hextension
    decide
  · intro h
    have hfails : RegistryFactory.succeeded
        (coreFactory.addBroadcast 7 unknownRegistry).1 = false := by
      decide
    rw [RegistryFactory.Atomic, hfails] at h
    have hroute := congrArg
      (fun f => f.registries_["config"]?.map fun r => r.external_.contains "c") h
    revert hroute
    decide

end Osquery.Registry
