import Osquery.Core.BackingStore

/-!
# Database plugins

The interface that every database plugin implements, the abstract content of a
store, and the contract that connects the two: under every domain the content
is a map from keys to values, and a write changes it as an assignment does.

## Implementation notes

A plugin is given by its calls as functions of its state. Messages of a status
that is OK are left out; a status that is not OK is an error with its message.
The variants of `get` and `put` for integers are not modelled. The content of a
domain is a function to optional values; a plugin that does not know a domain
refuses every call on it. `std::mismatch` of the in-memory plugin reads past the
end of a key that is shorter than the prefix: first the terminator, then whatever
the memory holds, which is a parameter.
-/

namespace Osquery.Database

open Core.BackingStore

def kLogs : String := "logs"
def kCarves : String := "carves"

/-- The domains that a store is opened with. -/
def kDomains : List String := [kPersistentSettings, kQueries, kEvents, kLogs, kCarves]

/-- The virtual calls of a database plugin. -/
structure DatabasePlugin (σ : Type) where
  get : σ → (domain key : String) → Except String String
  put : σ → (domain key value : String) → Except String Unit × σ
  putBatch : σ → (domain : String) → List (String × String) → Except String Unit × σ
  remove : σ → (domain key : String) → Except String Unit × σ
  removeRange : σ → (domain low high : String) → Except String Unit × σ
  scan : σ → (domain pre : String) → (max : UInt64) → Except String (List String)

/-- The operations of the database API with their results. -/
inductive Operation : Type → Type
  | get (domain key : String) : Operation String
  | put (domain key value : String) : Operation Unit
  | putBatch (domain : String) (data : List (String × String)) : Operation Unit
  | remove (domain key : String) : Operation Unit
  | removeRange (domain low high : String) : Operation Unit
  | scan (domain pre : String) (max : UInt64) : Operation (List String)

def Operation.domain {β : Type} : Operation β → String
  | .get d _ => d
  | .put d _ _ => d
  | .putBatch d _ => d
  | .remove d _ => d
  | .removeRange d _ _ => d
  | .scan d _ _ => d

/-! ### The content of a store -/

/-- What a store holds under the keys of each domain. -/
abbrev Contents := String → String → Option String

namespace Contents

def empty : Contents := fun _ _ => none

def store (m : Contents) (domain key value : String) : Contents :=
  fun d k => if domain = d ∧ key = k then some value else m d k

def storeAll (m : Contents) (domain : String) (data : List (String × String)) : Contents :=
  data.foldl (fun m p => m.store domain p.1 p.2) m

def erase (m : Contents) (domain key : String) : Contents :=
  fun d k => if domain = d ∧ key = k then none else m d k

/-- Both ends of the range are erased. -/
def eraseRange (m : Contents) (domain low high : String) : Contents :=
  fun d k => if domain = d ∧ low ≤ k ∧ k ≤ high then none else m d k

end Contents

/-- The last value that a batch gives to a key. -/
def lastValue : List (String × String) → String → Option String
  | [], _ => none
  | (k, v) :: rest, key => (lastValue rest key).or (if k = key then some v else none)

theorem Contents.storeAll_apply (m : Contents) (domain : String) (data : List (String × String))
    (d k : String) :
    m.storeAll domain data d k = if domain = d then (lastValue data k).or (m d k) else m d k := by
  induction data generalizing m with
  | nil => simp [Contents.storeAll, lastValue]
  | cons p rest ih =>
      have hstep : m.storeAll domain (p :: rest) = (m.store domain p.1 p.2).storeAll domain rest :=
        rfl
      rw [hstep, ih]
      by_cases hd : domain = d
      · subst hd
        by_cases hk : p.1 = k
        · simp [lastValue, Contents.store, hk]
        · simp [lastValue, Contents.store, hk]
      · simp [Contents.store, hd]

/-- Batches that give the same last values have the same effect. -/
theorem Contents.storeAll_congr {data data' : List (String × String)}
    (h : ∀ k, lastValue data k = lastValue data' k) (m : Contents) (domain : String) :
    m.storeAll domain data = m.storeAll domain data' := by
  funext d k
  rw [storeAll_apply, storeAll_apply, h k]

theorem lastValue_eq_none {data : List (String × String)} {key : String}
    (h : ∀ p ∈ data, p.1 ≠ key) : lastValue data key = none := by
  induction data with
  | nil => rfl
  | cons p rest ih =>
      have hp : p.1 ≠ key := h p List.mem_cons_self
      rw [lastValue, ih fun q hq => h q (List.mem_cons_of_mem _ hq), if_neg hp]
      rfl

theorem mem_of_lastValue {data : List (String × String)} {key value : String}
    (h : lastValue data key = some value) : (key, value) ∈ data := by
  induction data with
  | nil => simp [lastValue] at h
  | cons p rest ih =>
      obtain ⟨k, v⟩ := p
      rw [lastValue, Option.or_eq_some_iff] at h
      rcases h with h | ⟨-, h⟩
      · exact List.mem_cons_of_mem _ (ih h)
      · split at h
        · rename_i hk
          rw [hk, Option.some_inj.mp h]
          exact List.mem_cons_self
        · cases h

/-- In a batch without repeated keys every entry counts. -/
theorem lastValue_of_nodup {data : List (String × String)} (hnodup : (data.map Prod.fst).Nodup)
    {key value : String} : lastValue data key = some value ↔ (key, value) ∈ data := by
  refine ⟨mem_of_lastValue, ?_⟩
  induction data with
  | nil => simp
  | cons p rest ih =>
      obtain ⟨k, v⟩ := p
      rw [List.map_cons, List.nodup_cons] at hnodup
      intro h
      rcases List.mem_cons.mp h with h | h
      · obtain ⟨rfl, rfl⟩ := Prod.mk.inj h
        have hnone : lastValue rest key = none := by
          apply lastValue_eq_none
          intro q hq heq
          exact hnodup.1 (List.mem_map.mpr ⟨q, hq, heq⟩)
        simp [lastValue, hnone]
      · rw [lastValue, ih hnodup.2 h, Option.some_or]

/-! ### The contract -/

/-- A plugin that keeps a map under each of its domains. Every call on a domain
that it does not have is refused and changes nothing. -/
structure KeyValuePlugin (σ : Type) extends DatabasePlugin σ where
  content : σ → Contents
  hasDomain : String → Prop
  initial : σ
  content_initial : content initial = Contents.empty
  put_eq : ∀ s d k v, put s d k v = putBatch s d [(k, v)]
  putBatch_ok : ∀ s d data, hasDomain d → (putBatch s d data).1 = .ok ()
  content_putBatch : ∀ s d data, hasDomain d →
    content (putBatch s d data).2 = (content s).storeAll d data
  removeRange_ok : ∀ s d low high, hasDomain d → (removeRange s d low high).1 = .ok ()
  putBatch_refused : ∀ s d data, ¬hasDomain d →
    (putBatch s d data).1.toOption = none ∧ (putBatch s d data).2 = s
  removeRange_refused : ∀ s d low high, ¬hasDomain d →
    (removeRange s d low high).1.toOption = none ∧ (removeRange s d low high).2 = s

/-! ### The in-memory plugin -/

theorem lookup_putBatch (db : Database) (domain : String) (data : List (String × String)) :
    lookup (Ephemeral.putBatch db domain data) = Contents.storeAll (lookup db) domain data := by
  induction data generalizing db with
  | nil => rfl
  | cons p rest ih =>
      have hstore : lookup (Ephemeral.setValue db domain p.1 p.2) =
          Contents.store (lookup db) domain p.1 p.2 := by
        funext d k
        exact lookup_setValue db domain p.1 p.2 d k
      rw [putBatch_cons, ih, hstore]
      rfl

def NulFree (s : String) : Prop := '\x00' ∉ s.toList

/-- Whether `std::mismatch` reaches the end of the prefix. A key that is shorter
is read on into its terminator and what lies behind it. -/
def reachesEnd (memory : List Char) (pre key : String) : Bool :=
  pre.toList.isPrefixOf (key.toList ++ '\x00' :: memory)

theorem reachesEnd_iff {pre : String} (hpre : NulFree pre) (memory : List Char) (key : String) :
    reachesEnd memory pre key = true ↔ pre.toList <+: key.toList := by
  rw [reachesEnd, List.isPrefixOf_iff_prefix]
  refine ⟨fun h => ?_, fun h => h.trans (List.prefix_append _ _)⟩
  rcases List.prefix_or_prefix_of_prefix h (List.prefix_append key.toList ('\x00' :: memory)) with
    h' | ⟨rest, hrest⟩
  · exact h'
  · cases rest with
    | nil => exact ⟨[], (List.append_nil _).trans (hrest.symm.trans (List.append_nil _))⟩
    | cons c rest =>
        rw [← hrest, List.prefix_append_right_inj, List.cons_prefix_cons] at h
        exact absurd (hrest ▸ List.mem_append_right _ (h.1 ▸ List.mem_cons_self)) hpre

section Ephemeral

variable (heap : String → List Char)

/-- `EphemeralDatabasePlugin::scan`; the heap holds what lies behind each key. -/
def ephemeralScan (db : Database) (domain pre : String) (max : UInt64) : List String :=
  let keys := (Ephemeral.domainOf db domain).keys.filter fun key =>
    pre.isEmpty || reachesEnd (heap key) pre key
  if max > 0 then keys.take max.toNat else keys

/-- `EphemeralDatabasePlugin`. -/
def ephemeralPlugin : DatabasePlugin Database where
  get := Ephemeral.get
  put db d k v := (.ok (), Ephemeral.setValue db d k v)
  putBatch db d data := (.ok (), Ephemeral.putBatch db d data)
  remove db d k := (.ok (), Ephemeral.remove db d k)
  removeRange db d low high := (.ok (), Ephemeral.removeRange db d low high)
  scan db d pre max := .ok (ephemeralScan heap db d pre max)

/-- Every write succeeds, in every domain. -/
def ephemeral : KeyValuePlugin Database where
  toDatabasePlugin := ephemeralPlugin heap
  content := lookup
  hasDomain _ := True
  initial := ∅
  content_initial := by
    funext d k
    rw [lookup, Ephemeral.domainOf, Std.ExtTreeMap.getD_empty]
    exact Std.ExtTreeMap.getElem?_empty
  put_eq _ _ _ _ := rfl
  putBatch_ok _ _ _ _ := rfl
  content_putBatch db d data _ := lookup_putBatch db d data
  removeRange_ok _ _ _ _ _ := rfl
  putBatch_refused _ _ _ h := absurd trivial h
  removeRange_refused _ _ _ _ h := absurd trivial h

end Ephemeral

end Osquery.Database
