import Osquery.Registry.Broadcast
import Osquery.Foundation.Simulation

/-!
# Extensions that come and go

An extension that is added and removed again leaves nothing behind, whatever other extensions
did in between. At every point of such a run the factory is the one without the extension,
with the broadcast of the extension on top, and none of the broadcast's items is known
underneath.

## Implementation notes

A run is a list of calls that all succeed, each for some extension, and of changes of what a
plugin type answers, which are no calls of the registries. An extension is fresh when it is
neither registered nor serves an item; the second is no consequence of the first, because a
broadcast with an unknown registry leaves items of an extension that is not registered.
-/

namespace Osquery.Registry

open Core Core.Rows Foundation.Simulation

variable {π : Type}

namespace RegistryInterface

variable (r : RegistryInterface π) (uuid : RouteUUID)

theorem getElem?_external_withRoutes (routes : RegistryRoutes) (item : String) :
    (r.withRoutes uuid routes).external_[item]? =
      if routes[item]? = none then r.external_[item]? else some uuid := by
  rw [withRoutes, Std.ExtTreeMap.getElem?_union, Std.ExtTreeMap.getElem?_map]
  cases routes[item]? <;> rfl

theorem getElem?_routes_withRoutes (routes : RegistryRoutes) (item : String) :
    (r.withRoutes uuid routes).routes_[item]? = (routes[item]?).or r.routes_[item]? := by
  rw [withRoutes, Std.ExtTreeMap.getElem?_union]

/-- Registries that differ in their external items only, and there have the same. -/
theorem ext_external {r r' : RegistryInterface π}
    (hsame : { r with external_ := ∅, routes_ := ∅ } = { r' with external_ := ∅, routes_ := ∅ })
    (hexternal : ∀ item : String, r.external_[item]? = r'.external_[item]?)
    (hroutes : ∀ item : String, r.routes_[item]? = r'.routes_[item]?) : r = r' := by
  obtain ⟨hook, items, aliases, external, routes⟩ := r
  obtain ⟨hook', items', aliases', external', routes'⟩ := r'
  obtain rfl := Std.ExtTreeMap.ext_getElem? hexternal
  obtain rfl := Std.ExtTreeMap.ext_getElem? hroutes
  simp only [mk.injEq, and_true] at hsame
  obtain ⟨rfl, rfl, rfl⟩ := hsame
  rfl

theorem withRoutes_empty : r.withRoutes uuid ∅ = r := by
  apply ext_external
  · rfl
  · intro item
    rw [getElem?_external_withRoutes, if_pos Std.ExtTreeMap.getElem?_empty]
  · intro item
    rw [getElem?_routes_withRoutes, Std.ExtTreeMap.getElem?_empty, Option.none_or]

/-- The routes of two extensions that share no item can be added in any order. -/
theorem withRoutes_comm {routes routes' : RegistryRoutes}
    (hdisjoint : ∀ item : String, routes[item]? = none ∨ routes'[item]? = none)
    (uuid' : RouteUUID) :
    (r.withRoutes uuid routes).withRoutes uuid' routes' =
      (r.withRoutes uuid' routes').withRoutes uuid routes := by
  apply ext_external
  · rfl
  · intro item
    simp only [getElem?_external_withRoutes]
    obtain h | h := hdisjoint item <;> simp [h]
  · intro item
    simp only [getElem?_routes_withRoutes]
    obtain h | h := hdisjoint item <;> simp [h]

/-- Removing one extension leaves the routes of another. -/
theorem removeExternal_withRoutes_of_ne (routes : RegistryRoutes) {uuid' : RouteUUID}
    (hne : uuid ≠ uuid') :
    (r.withRoutes uuid routes).removeExternal uuid' =
      (r.removeExternal uuid').withRoutes uuid routes := by
  apply ext_external
  · rfl
  · intro item
    rw [getElem?_external_removeExternal, getElem?_external_withRoutes,
      getElem?_external_withRoutes, getElem?_external_removeExternal]
    by_cases h : routes[item]? = none <;> simp [h, hne]
  · intro item
    rw [getElem?_routes_removeExternal, getElem?_external_withRoutes,
      getElem?_routes_withRoutes, getElem?_routes_withRoutes, getElem?_routes_removeExternal]
    cases h : routes[item]? <;> simp [hne]

/-- Removing an extension whose routes were new restores the registry. -/
theorem removeExternal_withRoutes (routes : RegistryRoutes) (hwithout : r.Without uuid)
    (hnew : ∀ item : String, routes[item]? ≠ none → r.New item) :
    (r.withRoutes uuid routes).removeExternal uuid = r := by
  apply ext_external
  · rfl
  · intro item
    rw [getElem?_external_removeExternal, getElem?_external_withRoutes]
    by_cases h : routes[item]? = none
    · simp [h, hwithout item]
    · simp [h, (hnew item h).1]
  · intro item
    rw [getElem?_routes_removeExternal, getElem?_external_withRoutes,
      getElem?_routes_withRoutes]
    by_cases h : routes[item]? = none
    · simp [h, hwithout item]
    · simp [h, (hnew item h).2]

theorem new_removeExternal {item : String} (h : r.New item) :
    (r.removeExternal uuid).New item := by
  constructor
  · rw [getElem?_external_removeExternal, h.1, ite_self]
  · rw [getElem?_routes_removeExternal, h.2, ite_self]

theorem new_withRoutes {routes : RegistryRoutes} {item : String} (h : r.New item)
    (hroutes : routes[item]? = none) : (r.withRoutes uuid routes).New item := by
  constructor
  · rw [getElem?_external_withRoutes, if_pos hroutes, h.1]
  · rw [getElem?_routes_withRoutes, hroutes, h.2, Option.none_or]

theorem without_removeExternal {uuid' : RouteUUID} (h : r.Without uuid) :
    (r.removeExternal uuid').Without uuid := by
  intro item
  rw [getElem?_external_removeExternal]
  split
  · exact Option.some_ne_none uuid ∘ Eq.symm
  · exact h item

theorem without_withRoutes (routes : RegistryRoutes) {uuid' : RouteUUID} (hne : uuid ≠ uuid')
    (h : r.Without uuid) : (r.withRoutes uuid' routes).Without uuid := by
  intro item
  rw [getElem?_external_withRoutes]
  split
  · exact h item
  · simpa using hne.symm

theorem exists_eq_false_iff {item : String} :
    r.exists_ item false = false ↔ r.items_[item]? = none ∧ r.New item := by
  simp only [exists_, New, Std.ExtTreeMap.contains_eq_isSome_getElem?, Bool.false_eq_true,
    if_false, Bool.or_eq_false_iff, Option.isSome_eq_false_iff, Option.isNone_iff_eq_none,
    and_assoc]

/-- What is not known on top of some routes is not known underneath, nor one of the routes. -/
theorem exists_withRoutes_eq_false {routes : RegistryRoutes} {item : String}
    (h : (r.withRoutes uuid routes).exists_ item false = false) :
    r.exists_ item false = false ∧ routes[item]? = none := by
  rw [exists_eq_false_iff] at h ⊢
  obtain ⟨hitems, hexternal, hroutes⟩ := h
  rw [getElem?_routes_withRoutes, Option.or_eq_none_iff] at hroutes
  rw [getElem?_external_withRoutes, if_pos hroutes.1] at hexternal
  exact ⟨⟨hitems, hexternal, hroutes.2⟩, hroutes.1⟩

end RegistryInterface

/-! ### Runs of calls -/

/-- A call for an extension, or a change of what a plugin type answers. -/
inductive Call (π : Type)
  | addBroadcast (uuid : RouteUUID) (broadcast : RegistryBroadcast)
  | removeBroadcast (uuid : RouteUUID)
  | answer (registry : String) (addExternalPlugin : String → PluginResponse → Status)

/-- The call is not one for the extension. -/
def Call.Other (uuid : RouteUUID) : Call π → Prop
  | .addBroadcast uuid' _ => uuid ≠ uuid'
  | .removeBroadcast uuid' => uuid ≠ uuid'
  | .answer _ _ => True

namespace RegistryFactory

/-- A plugin type of the factory answers differently. -/
def answering (f : RegistryFactory π) (registry : String)
    (addExternalPlugin : String → PluginResponse → Status) : RegistryFactory π :=
  { f with
    registries_ := f.registries_.modify registry fun r =>
      { r with addExternalPlugin := addExternalPlugin } }

/-- The factory after a call, if that succeeds. -/
def call (f : RegistryFactory π) : Call π → Option (RegistryFactory π)
  | .addBroadcast uuid broadcast =>
      let added := f.addBroadcast uuid broadcast
      if succeeded added.1 then some added.2 else none
  | .removeBroadcast uuid =>
      let removed := f.removeBroadcast uuid
      if removed.1.ok then some removed.2 else none
  | .answer registry addExternalPlugin => some (f.answering registry addExternalPlugin)

variable (f : RegistryFactory π) (uuid : RouteUUID) (broadcast : RegistryBroadcast)

/-- Nothing in the factory is of the extension. -/
def Fresh : Prop :=
  f.extensions_.contains uuid = false ∧
    ∀ (name : String) (r : RegistryInterface π), f.registries_[name]? = some r → r.Without uuid

/-- No item of the broadcast is an external one of its registry. -/
def AllNew : Prop :=
  ∀ (name : String) (r : RegistryInterface π), f.registries_[name]? = some r →
    ∀ item : String, (broadcast.getD name ∅)[item]? ≠ none → r.New item

/-- The broadcast is tried, and every registry takes its routes. -/
def Accepts : Prop := ¬ f.Refused uuid broadcast ∧ f.remaining broadcast = []

/-- The factory without the items of an extension. -/
def withoutBroadcast : RegistryFactory π :=
  { f with
    registries_ := f.registries_.map fun _ r => r.removeExternal uuid
    extensions_ := f.extensions_.erase uuid }

theorem mem_broadcastItems_iff (name item : String) :
    (name, item) ∈ broadcastItems broadcast ↔ (broadcast.getD name ∅)[item]? ≠ none := by
  rw [Std.ExtTreeMap.getD_eq_getD_getElem?, Option.ne_none_iff_exists']
  constructor
  · intro h
    obtain ⟨⟨name', routes⟩, hregistry, hitem⟩ := List.mem_flatMap.mp h
    obtain ⟨⟨item', info⟩, hroute, heq⟩ := List.mem_map.mp hitem
    obtain ⟨rfl, rfl⟩ := Prod.mk.inj heq
    rw [Std.ExtTreeMap.mem_toList_iff_getElem?_eq_some] at hregistry hroute
    exact ⟨info, by rw [hregistry]; exact hroute⟩
  · rintro ⟨info, hinfo⟩
    cases hregistry : broadcast[name]? with
    | none => simp [hregistry] at hinfo
    | some routes =>
        rw [hregistry] at hinfo
        have hroute := Std.ExtTreeMap.mem_toList_iff_getElem?_eq_some.mpr hinfo
        have hmem := Std.ExtTreeMap.mem_toList_iff_getElem?_eq_some.mpr hregistry
        exact List.mem_flatMap.mpr ⟨_, hmem, List.mem_map.mpr ⟨_, hroute, rfl⟩⟩

theorem getElem?_registries_withBroadcast (name : String) :
    (f.withBroadcast uuid broadcast).registries_[name]? =
      (f.registries_[name]?).map fun r => r.withRoutes uuid (broadcast.getD name ∅) := by
  rw [withBroadcast, Std.ExtTreeMap.getElem?_map, Std.ExtTreeMap.getD_eq_getD_getElem?]
  cases broadcast[name]? with
  | none => simp only [Option.getD_none, RegistryInterface.withRoutes_empty]
  | some routes => rfl

theorem getElem?_registries_withoutBroadcast (name : String) :
    (f.withoutBroadcast uuid).registries_[name]? =
      (f.registries_[name]?).map fun r => r.removeExternal uuid := by
  rw [withoutBroadcast, Std.ExtTreeMap.getElem?_map]

theorem succeeded_addBroadcast_iff :
    succeeded (f.addBroadcast uuid broadcast).1 = true ↔ f.Accepts uuid broadcast := by
  by_cases hrefused : f.Refused uuid broadcast
  · obtain ⟨status, hstatus, hadd⟩ := f.addBroadcast_of_refused uuid broadcast hrefused
    simp [hadd, succeeded, hstatus, Accepts, hrefused]
  rw [Accepts, and_iff_right hrefused, f.addBroadcast_of_not_refused uuid broadcast hrefused]
  cases hremaining : f.remaining broadcast with
  | nil =>
      obtain ⟨status, hstatus, hadd⟩ := f.addRegistries_of_remaining_nil uuid broadcast hremaining
      simp [hadd, succeeded, hstatus]
  | cons stop rest =>
      refine iff_of_false ?_ (List.cons_ne_nil stop rest)
      cases hstop : f.registries_[stop.1]? with
      | none =>
          obtain ⟨status, hstatus, hadd⟩ := addRegistries_of_unknown uuid hremaining hstop
          simp [hadd, succeeded, hstatus]
      | some r =>
          have hadd := addRegistries_of_rejected uuid hremaining hstop
          split at hadd
          · obtain ⟨status, hstatus, hadd⟩ := hadd
            simp [hadd, succeeded, hstatus]
          · obtain ⟨what, hadd⟩ := hadd
            simp [hadd, succeeded]

theorem addBroadcast_of_accepts (h : f.Accepts uuid broadcast) :
    (f.addBroadcast uuid broadcast).2 = f.withBroadcast uuid broadcast := by
  obtain ⟨hrefused, hremaining⟩ := h
  obtain ⟨status, -, hadd⟩ := f.addRegistries_of_remaining_nil uuid broadcast hremaining
  rw [f.addBroadcast_of_not_refused uuid broadcast hrefused, hadd]

theorem call_addBroadcast_eq_some_iff (g : RegistryFactory π) :
    f.call (.addBroadcast uuid broadcast) = some g ↔
      f.Accepts uuid broadcast ∧ f.withBroadcast uuid broadcast = g := by
  rw [call, Option.ite_none_right_eq_some, Option.some_inj, succeeded_addBroadcast_iff]
  constructor
  · rintro ⟨haccepts, hg⟩
    exact ⟨haccepts, (f.addBroadcast_of_accepts uuid broadcast haccepts).symm.trans hg⟩
  · rintro ⟨haccepts, hg⟩
    exact ⟨haccepts, (f.addBroadcast_of_accepts uuid broadcast haccepts).trans hg⟩

theorem call_removeBroadcast_eq_some_iff (g : RegistryFactory π) :
    f.call (.removeBroadcast uuid) = some g ↔
      f.extensions_.contains uuid = true ∧ f.withoutBroadcast uuid = g := by
  rw [call, removeBroadcast]
  split
  · next h => simp [h, Status.success, Status.ok, withoutBroadcast]
  · next h => simp [h, Status.ok]

theorem takes_withBroadcast : (f.withBroadcast uuid broadcast).takes = f.takes := by
  ext1 registry
  rw [takes, takes, getElem?_registries_withBroadcast]
  cases f.registries_[registry.1]? <;> rfl

theorem exists_eq_false_iff (name item : String) :
    f.exists_ name item = false ↔
      ∀ r, f.registries_[name]? = some r → r.exists_ item false = false := by
  rw [exists_]
  cases f.registries_[name]? <;> simp

theorem not_refused_iff (hallow : f.allow_duplicates_ = false) :
    ¬ f.Refused uuid broadcast ↔
      f.extensions_.contains uuid = false ∧
        ∀ (name : String) (r : RegistryInterface π), f.registries_[name]? = some r →
          ∀ item : String, (broadcast.getD name ∅)[item]? ≠ none →
            r.exists_ item false = false := by
  simp only [Refused, hallow, true_and, not_or, Bool.not_eq_true, not_exists, not_and, Prod.forall,
    mem_broadcastItems_iff, exists_eq_false_iff]
  aesop

/-- What is accepted on top of a broadcast is accepted without it, and shares no item with
it. -/
theorem Accepts.of_withBroadcast {f : RegistryFactory π} {uuid uuid' : RouteUUID}
    {broadcast broadcast' : RegistryBroadcast} (hallow : f.allow_duplicates_ = false)
    (h : (f.withBroadcast uuid broadcast).Accepts uuid' broadcast') :
    f.Accepts uuid' broadcast' ∧
      ∀ (name : String) (r : RegistryInterface π), f.registries_[name]? = some r →
        ∀ item : String, (broadcast.getD name ∅)[item]? = none ∨
          (broadcast'.getD name ∅)[item]? = none := by
  obtain ⟨hrefused, hremaining⟩ := h
  obtain ⟨hextensions, hitems⟩ :=
    ((f.withBroadcast uuid broadcast).not_refused_iff uuid' broadcast' hallow).mp hrefused
  have hunknown : ∀ (name : String) (r : RegistryInterface π), f.registries_[name]? = some r →
      ∀ item : String, (broadcast'.getD name ∅)[item]? ≠ none →
        r.exists_ item false = false ∧ (broadcast.getD name ∅)[item]? = none := by
    intro name r hr item hitem
    apply r.exists_withRoutes_eq_false uuid
    apply hitems name _ _ item hitem
    rw [getElem?_registries_withBroadcast, hr]
    rfl
  constructor
  · constructor
    · apply (f.not_refused_iff uuid' broadcast' hallow).mpr
      constructor
      · rw [withBroadcast, Std.ExtTreeSet.contains_insert] at hextensions
        exact (Bool.or_eq_false_iff.mp hextensions).2
      · intro name r hr item hitem
        exact (hunknown name r hr item hitem).1
    · rw [remaining, takes_withBroadcast] at hremaining
      exact hremaining
  · intro name r hr item
    by_cases hitem : (broadcast'.getD name ∅)[item]? = none
    · exact .inr hitem
    · exact .inl (hunknown name r hr item hitem).2

theorem ext_getElem? {f g : RegistryFactory π}
    (hallow : f.allow_duplicates_ = g.allow_duplicates_)
    (hregistries : ∀ name : String, f.registries_[name]? = g.registries_[name]?)
    (hextensions : ∀ uuid : RouteUUID, f.extensions_.contains uuid = g.extensions_.contains uuid) :
    f = g := by
  obtain ⟨allow, registries, extensions⟩ := f
  obtain ⟨allow', registries', extensions'⟩ := g
  obtain rfl : allow = allow' := hallow
  obtain rfl := Std.ExtTreeMap.ext_getElem? hregistries
  obtain rfl := Std.ExtTreeSet.ext_contains hextensions
  rfl

theorem map_congr_of_some {r : Option (RegistryInterface π)} {α : Type}
    {g h : RegistryInterface π → α} (heq : ∀ r', r = some r' → g r' = h r') :
    r.map g = r.map h := by
  cases r with
  | none => rfl
  | some r => exact congrArg some (heq r rfl)

theorem withBroadcast_comm {uuid' : RouteUUID} {broadcast' : RegistryBroadcast}
    (hdisjoint : ∀ (name : String) (r : RegistryInterface π), f.registries_[name]? = some r →
      ∀ item : String, (broadcast.getD name ∅)[item]? = none ∨
        (broadcast'.getD name ∅)[item]? = none) :
    (f.withBroadcast uuid broadcast).withBroadcast uuid' broadcast' =
      (f.withBroadcast uuid' broadcast').withBroadcast uuid broadcast := by
  apply ext_getElem?
  · rfl
  · intro name
    simp only [getElem?_registries_withBroadcast, Option.map_map]
    apply map_congr_of_some
    intro r hr
    exact r.withRoutes_comm uuid (hdisjoint name r hr) uuid'
  · intro other
    simp only [withBroadcast, Std.ExtTreeSet.contains_insert]
    exact Bool.or_left_comm ..

theorem withoutBroadcast_withBroadcast_of_ne {uuid' : RouteUUID} (hne : uuid ≠ uuid') :
    (f.withBroadcast uuid broadcast).withoutBroadcast uuid' =
      (f.withoutBroadcast uuid').withBroadcast uuid broadcast := by
  apply ext_getElem?
  · rfl
  · intro name
    simp only [getElem?_registries_withBroadcast, getElem?_registries_withoutBroadcast,
      Option.map_map]
    apply map_congr_of_some
    intro r hr
    exact r.removeExternal_withRoutes_of_ne uuid _ hne
  · intro other
    simp only [withBroadcast, withoutBroadcast, Std.ExtTreeSet.contains_insert,
      Std.ExtTreeSet.contains_erase]
    grind

/-- Removing a fresh extension that added new items restores the factory. -/
theorem withoutBroadcast_withBroadcast (hfresh : f.Fresh uuid) (hnew : f.AllNew broadcast) :
    (f.withBroadcast uuid broadcast).withoutBroadcast uuid = f := by
  apply ext_getElem?
  · rfl
  · intro name
    simp only [getElem?_registries_withBroadcast, getElem?_registries_withoutBroadcast,
      Option.map_map]
    calc (f.registries_[name]?).map _
      _ = (f.registries_[name]?).map id := by
          apply map_congr_of_some
          intro r hr
          exact r.removeExternal_withRoutes uuid _ (hfresh.2 name r hr) (hnew name r hr)
      _ = f.registries_[name]? := Option.map_id'
  · intro other
    have hcontains := hfresh.1
    simp only [withBroadcast, withoutBroadcast, Std.ExtTreeSet.contains_insert,
      Std.ExtTreeSet.contains_erase]
    grind

/-! ### Runs with and without the extension -/

/-- The first factory is the second with the broadcast of a fresh extension on top. -/
structure Above (uuid : RouteUUID) (broadcast : RegistryBroadcast)
    (g f : RegistryFactory π) : Prop where
  eq : g = f.withBroadcast uuid broadcast
  fresh : f.Fresh uuid
  allNew : f.AllNew broadcast
  allow : f.allow_duplicates_ = false

variable {f uuid broadcast}

theorem allNew_of_accepts (hallow : f.allow_duplicates_ = false) (h : f.Accepts uuid broadcast) :
    f.AllNew broadcast := by
  intro name r hr item hitem
  have hexists := ((f.not_refused_iff uuid broadcast hallow).mp h.1).2 name r hr item hitem
  exact (r.exists_eq_false_iff.mp hexists).2

theorem Fresh.withBroadcast {uuid' : RouteUUID} (broadcast' : RegistryBroadcast)
    (hne : uuid ≠ uuid') (h : f.Fresh uuid) : (f.withBroadcast uuid' broadcast').Fresh uuid := by
  constructor
  · rw [RegistryFactory.withBroadcast, Std.ExtTreeSet.contains_insert, h.1, Bool.or_false]
    simpa using hne.symm
  · intro name r hr
    rw [getElem?_registries_withBroadcast] at hr
    obtain ⟨r', hr', rfl⟩ := Option.map_eq_some_iff.mp hr
    exact r'.without_withRoutes uuid _ hne (h.2 name r' hr')

theorem Fresh.withoutBroadcast {uuid' : RouteUUID} (h : f.Fresh uuid) :
    (f.withoutBroadcast uuid').Fresh uuid := by
  constructor
  · rw [RegistryFactory.withoutBroadcast, Std.ExtTreeSet.contains_erase, h.1, Bool.and_false]
  · intro name r hr
    rw [getElem?_registries_withoutBroadcast] at hr
    obtain ⟨r', hr', rfl⟩ := Option.map_eq_some_iff.mp hr
    exact r'.without_removeExternal uuid (h.2 name r' hr')

theorem AllNew.withBroadcast {uuid' : RouteUUID} {broadcast' : RegistryBroadcast}
    (h : f.AllNew broadcast)
    (hdisjoint : ∀ (name : String) (r : RegistryInterface π), f.registries_[name]? = some r →
      ∀ item : String, (broadcast.getD name ∅)[item]? = none ∨
        (broadcast'.getD name ∅)[item]? = none) :
    (f.withBroadcast uuid' broadcast').AllNew broadcast := by
  intro name r hr item hitem
  rw [getElem?_registries_withBroadcast] at hr
  obtain ⟨r', hr', rfl⟩ := Option.map_eq_some_iff.mp hr
  apply r'.new_withRoutes uuid' (h name r' hr' item hitem)
  exact (hdisjoint name r' hr' item).resolve_left hitem

theorem AllNew.withoutBroadcast (uuid' : RouteUUID) (h : f.AllNew broadcast) :
    (f.withoutBroadcast uuid').AllNew broadcast := by
  intro name r hr item hitem
  rw [getElem?_registries_withoutBroadcast] at hr
  obtain ⟨r', hr', rfl⟩ := Option.map_eq_some_iff.mp hr
  exact r'.new_removeExternal uuid' (h name r' hr' item hitem)

section Answering

variable (f) (registry : String) (hook : String → PluginResponse → Status)

theorem getElem?_registries_answering (name : String) :
    (f.answering registry hook).registries_[name]? =
      (f.registries_[name]?).map fun r =>
        if registry = name then { r with addExternalPlugin := hook } else r := by
  rw [answering, Std.ExtTreeMap.getElem?_modify]
  by_cases h : registry = name
  · subst h
    simp
  · simp [h]

theorem answering_withBroadcast :
    (f.withBroadcast uuid broadcast).answering registry hook =
      (f.answering registry hook).withBroadcast uuid broadcast := by
  apply ext_getElem?
  · rfl
  · intro name
    simp only [getElem?_registries_withBroadcast, getElem?_registries_answering, Option.map_map]
    apply map_congr_of_some
    intro r hr
    simp only [Function.comp_apply]
    split <;> rfl
  · intro other
    rfl

variable {f}

theorem Fresh.answering (h : f.Fresh uuid) : (f.answering registry hook).Fresh uuid := by
  refine ⟨h.1, ?_⟩
  intro name r hr
  rw [getElem?_registries_answering] at hr
  obtain ⟨r', hr', rfl⟩ := Option.map_eq_some_iff.mp hr
  have hwithout := h.2 name r' hr'
  split <;> exact hwithout

theorem AllNew.answering (h : f.AllNew broadcast) :
    (f.answering registry hook).AllNew broadcast := by
  intro name r hr item hitem
  rw [getElem?_registries_answering] at hr
  obtain ⟨r', hr', rfl⟩ := Option.map_eq_some_iff.mp hr
  have hnew := h name r' hr' item hitem
  split <;> exact hnew

end Answering

/-- A call for another extension that succeeds on top of the broadcast succeeds without it. -/
theorem follows_above (uuid : RouteUUID) (broadcast : RegistryBroadcast) :
    Follows call call (Above uuid broadcast : RegistryFactory π → RegistryFactory π → Prop)
      (Call.Other uuid) := by
  rintro g f action g' ⟨rfl, hfresh, hnew, hallow⟩ hother hcall
  cases action with
  | addBroadcast uuid' broadcast' =>
      obtain ⟨haccepts, rfl⟩ := (call_addBroadcast_eq_some_iff _ uuid' broadcast' g').mp hcall
      obtain ⟨haccepts', hdisjoint⟩ := haccepts.of_withBroadcast hallow
      refine ⟨f.withBroadcast uuid' broadcast', ?_, ?_⟩
      · exact (f.call_addBroadcast_eq_some_iff uuid' broadcast' _).mpr ⟨haccepts', rfl⟩
      · exact {
          eq := f.withBroadcast_comm uuid broadcast hdisjoint
          fresh := hfresh.withBroadcast broadcast' hother
          allNew := hnew.withBroadcast hdisjoint
          allow := hallow }
  | removeBroadcast uuid' =>
      obtain ⟨hcontains, rfl⟩ := (call_removeBroadcast_eq_some_iff _ uuid' g').mp hcall
      refine ⟨f.withoutBroadcast uuid', ?_, ?_⟩
      · apply (f.call_removeBroadcast_eq_some_iff uuid' _).mpr
        rw [withBroadcast, Std.ExtTreeSet.contains_insert, Bool.or_eq_true] at hcontains
        have hne : uuid ≠ uuid' := hother
        exact ⟨hcontains.resolve_left (by simpa using hne), rfl⟩
      · exact {
          eq := f.withoutBroadcast_withBroadcast_of_ne uuid broadcast hother
          fresh := hfresh.withoutBroadcast
          allNew := hnew.withoutBroadcast uuid'
          allow := hallow }
  | answer registry hook =>
      obtain rfl := Option.some.inj hcall
      refine ⟨f.answering registry hook, rfl, ?_⟩
      exact {
        eq := f.answering_withBroadcast registry hook
        fresh := hfresh.answering registry hook
        allNew := hnew.answering registry hook
        allow := hallow }

/-- A fresh extension that is added and later removed leaves the factory as it is in the run
without it, with the same maps, extensions, names and answers. Before the removal the factory
has the broadcast on top of that, and nothing else. -/
theorem removeBroadcast_round_trip (hallow : f.allow_duplicates_ = false)
    (hfresh : f.Fresh uuid) (hadded : succeeded (f.addBroadcast uuid broadcast).1 = true)
    {calls : List (Call π)} (hothers : ∀ c ∈ calls, c.Other uuid) {g : RegistryFactory π}
    (hrun : run call (f.addBroadcast uuid broadcast).2 calls = some g) :
    ∃ g', run call f calls = some g' ∧ g = g'.withBroadcast uuid broadcast ∧
      g.removeBroadcast uuid = (.success, g') ∧
        ∀ registry_name item_name : String,
          (g.removeBroadcast uuid).2.names registry_name = g'.names registry_name ∧
            (g.removeBroadcast uuid).2.exists_ registry_name item_name =
              g'.exists_ registry_name item_name := by
  have haccepts := (f.succeeded_addBroadcast_iff uuid broadcast).mp hadded
  rw [f.addBroadcast_of_accepts uuid broadcast haccepts] at hrun
  have habove : Above uuid broadcast (f.withBroadcast uuid broadcast) f :=
    ⟨rfl, hfresh, allNew_of_accepts hallow haccepts, hallow⟩
  obtain ⟨g', hrun', rfl, hfresh', hnew', -⟩ :=
    (follows_above uuid broadcast).run hothers habove hrun
  have hcontains : (g'.withBroadcast uuid broadcast).extensions_.contains uuid = true := by
    rw [withBroadcast, Std.ExtTreeSet.contains_insert_self]
  have hremoved : (g'.withBroadcast uuid broadcast).removeBroadcast uuid = (.success, g') := by
    rw [removeBroadcast, if_pos hcontains]
    exact congrArg (Prod.mk _) (g'.withoutBroadcast_withBroadcast uuid broadcast hfresh' hnew')
  refine ⟨g', hrun', rfl, hremoved, ?_⟩
  intro registry_name item_name
  rw [hremoved]
  exact ⟨rfl, rfl⟩

/-! ### An extension that outlives another -/

/-- One table, under a name. -/
def oneTable (name : String) : RegistryBroadcast :=
  (∅ : RegistryBroadcast).insert "table" ((∅ : RegistryRoutes).insert name [∅])

theorem fresh_coreFactory (uuid : RouteUUID) : coreFactory.Fresh uuid := by
  constructor
  · rfl
  · intro name r hr item
    simp only [coreFactory, Std.ExtTreeMap.getElem?_insert, Std.ExtTreeMap.getElem?_empty] at hr
    have hexternal : r.external_ = ∅ := by
      split at hr
      · obtain rfl := Option.some.inj hr
        rfl
      · split at hr
        · obtain rfl := Option.some.inj hr
          rfl
        · cases hr
    rw [hexternal, Std.ExtTreeMap.getElem?_empty]
    exact (Option.some_ne_none uuid).symm

theorem removeBroadcast_round_trip_core :
    ∃ g g', run call (coreFactory.addBroadcast 7 (oneTable "t")).2
        [.addBroadcast 8 (oneTable "u"), .addBroadcast 9 (oneTable "v"),
          .removeBroadcast 8] = some g ∧
      g.removeBroadcast 7 = (.success, g') ∧ g'.names "table" = some ["v"] := by
  have hadded : succeeded (coreFactory.addBroadcast 7 (oneTable "t")).1 = true := by decide
  have hsome : (run call (coreFactory.addBroadcast 7 (oneTable "t")).2
      [.addBroadcast 8 (oneTable "u"), .addBroadcast 9 (oneTable "v"),
        .removeBroadcast 8]).isSome = true := by decide
  have hothers : ∀ c ∈ ([.addBroadcast 8 (oneTable "u"), .addBroadcast 9 (oneTable "v"),
      .removeBroadcast 8] : List (Call Unit)), c.Other 7 := by
    simp [Call.Other]
  obtain ⟨g, hrun⟩ := Option.isSome_iff_exists.mp hsome
  obtain ⟨g', hrun', -, hremoved, -⟩ :=
    removeBroadcast_round_trip rfl (fresh_coreFactory 7) hadded hothers hrun
  have hnames : (run call coreFactory [.addBroadcast 8 (oneTable "u"),
      .addBroadcast 9 (oneTable "v"), .removeBroadcast 8]).bind (fun f => f.names "table") =
        some ["v"] := by decide
  rw [hrun'] at hnames
  exact ⟨g, g', hrun, hremoved, hnames⟩

end RegistryFactory

end Osquery.Registry
