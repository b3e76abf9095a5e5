import Osquery.Foundation.Heaps
import Osquery.Foundation.Simulation
import Osquery.Tables.Hash

/-!
# The cache of file hashes and its heap

The entries of the cache stand in the nodes of a hash map, and a heap of pointers to the nodes
finds the entry that was used least recently. Whatever is loaded, the heap has one pointer to
each entry and is in order. An entry that is refreshed keeps the inode it was created with.

## Implementation notes

A node has an address. Where the map allocates a node and how the heap functions arrange the
pointers is left open. A pointer to no node would read as an empty entry. No state that is
reached has one. The hashes of a file are given with the call that computes them. The rows of the
table do not depend on which entries are evicted, and the module about them leaves the heap open.
-/

namespace Osquery.Tables.HashHeap

open Foundation.Heaps Foundation.Simulation

structure FileHashCache where
  file_mtime : ℤ := 0
  file_inode : ℕ := 0
  file_size : ℕ := 0
  cache_access_time : ℤ := 0
  hashes : MultiHashes := {}
  path : String := ""
  deriving DecidableEq

def statInvalid (st : Stat) (fh : FileHashCache) : Bool :=
  if st.st_ino ≠ fh.file_inode ∨ st.st_mtime ≠ fh.file_mtime then true
  else st.st_size ≠ fh.file_size

/-- The nodes of the map, by their addresses. -/
abbrev Nodes := Std.ExtTreeMap ℕ FileHashCache

/-- What a pointer points to. -/
def deref (nodes : Nodes) (p : ℕ) : FileHashCache := nodes[p]?.getD {}

def greater (nodes : Nodes) (l r : ℕ) : Bool :=
  decide ((deref nodes l).cache_access_time > (deref nodes r).cache_access_time)

/-- The functions for heaps, and where the map puts a new node. -/
structure Library where
  heap : HeapFunctions ℕ
  allocate : Nodes → ℕ
  allocate_new : ∀ nodes, allocate nodes ∉ nodes

/-- A call with what `stat` says, what hashing the file gives and the time. -/
structure Call where
  path : String
  stat : Option Stat
  hashes : MultiHashes
  time : ℤ

/-- The static variables of `load`: the map with its nodes, and the heap. -/
structure Store where
  nodes : Nodes
  cache : Std.ExtTreeMap String ℕ
  lru : List ℕ

def Store.empty : Store := ⟨∅, ∅, []⟩

/-- The entry of a path. -/
def Store.entry (s : Store) (path : String) : Option FileHashCache :=
  (s.cache[path]?).bind fun p => s.nodes[p]?

namespace Library

variable (lib : Library)

/-- One turn of the loop that evicts. -/
def evictOne (s : Store) : Store :=
  match s.lru with
  | [] => s
  | front :: _ =>
    let key := (deref s.nodes front).path
    let lru := (lib.heap.pop_heap (greater s.nodes) s.lru).dropLast
    match s.cache[key]? with
    | none => { s with lru := lru }
    | some p => ⟨s.nodes.erase p, s.cache.erase key, lru⟩

def evict : ℕ → Store → Store
  | 0, s => s
  | n + 1, s => evict n (lib.evictOne s)

/-- A new entry, with a pointer that goes into the heap. -/
def add (rec : FileHashCache) (s : Store) : Store :=
  let p := lib.allocate s.nodes
  let nodes := s.nodes.insert p rec
  ⟨nodes, s.cache.insert rec.path p, lib.heap.push_heap (greater nodes) (s.lru ++ [p])⟩

/-- An entry that is changed in its node, after which the heap is made again. -/
def change (p : ℕ) (entry : FileHashCache) (s : Store) : Store :=
  let nodes := s.nodes.insert p entry
  ⟨nodes, s.cache, lib.heap.make_heap (greater nodes) s.lru⟩

/-- The state after a call, and the hashes it gives. -/
def load (hash_cache_max : ℕ) (s : Store) (call : Call) : Store × Option MultiHashes :=
  match call.stat with
  | none => (s, none)
  | some st =>
    match s.cache[call.path]? with
    | none =>
      let s := if s.cache.size ≥ hash_cache_max then lib.evict kHashCacheEvictSize s else s
      let rec_ : FileHashCache :=
        ⟨st.st_mtime, st.st_ino, st.st_size, call.time, call.hashes, call.path⟩
      (lib.add rec_ s, some call.hashes)
    | some p =>
      let entry := deref s.nodes p
      if statInvalid st entry then
        (lib.change p { entry with
          cache_access_time := call.time
          file_mtime := st.st_mtime
          file_size := st.st_size
          hashes := call.hashes } s, some call.hashes)  -- `file_inode` stays
      else
        (lib.change p { entry with cache_access_time := call.time } s, some entry.hashes)

/-- The state after a call. -/
def step (hash_cache_max : ℕ) (s : Store) (call : Call) : Store :=
  (lib.load hash_cache_max s call).1

end Library

/-- The heap has one pointer to each entry and nothing else, and is in order. The entry of a path
has the path. -/
structure Linked (s : Store) : Prop where
  nodup : s.lru.Nodup
  mem_iff : ∀ p, p ∈ s.lru ↔ ∃ path : String, s.cache[path]? = some p
  entry_path : ∀ (path : String) p, s.cache[path]? = some p →
    ∃ e, s.nodes[p]? = some e ∧ e.path = path
  heap : IsHeap (greater s.nodes) s.lru

/-- The entries that a step removes were not used later than those it leaves. -/
def RemovesOldest (s s' : Store) : Prop :=
  ∀ path path' e e', s.entry path = some e → s'.entry path = none →
    s.entry path' = some e' → s'.entry path' ≠ none →
      e.cache_access_time ≤ e'.cache_access_time

/-- The entry of a file has what `stat` said of it. -/
def Records (s : Store) (call : Call) : Prop :=
  ∀ st, call.stat = some st → ∃ e, s.entry call.path = some e ∧
    e.file_inode = st.st_ino ∧ e.file_mtime = st.st_mtime ∧ e.file_size = st.st_size

/-- What a call keeps of the heap and the map. -/
structure KeepsHeap (lib : Library) (hash_cache_max : ℕ) (s : Store) (call : Call) : Prop where
  linked : Linked (lib.step hash_cache_max s call)
  size_le : (lib.step hash_cache_max s call).cache.size ≤ hash_cache_max
  oldest : RemovesOldest s (lib.step hash_cache_max s call)

/-- Everything that is promised of a call. -/
structure Keeps (lib : Library) (hash_cache_max : ℕ) (s : Store) (call : Call) : Prop
    extends KeepsHeap lib hash_cache_max s call where
  records : Records (lib.step hash_cache_max s call) call

/-- When the path has an entry, the file has the inode of the entry. -/
def SameInode (s : Store) (call : Call) : Prop :=
  ∀ st e, call.stat = some st → s.entry call.path = some e → e.file_inode = st.st_ino

/-! ### The states between -/

theorem strictWeak_greater (nodes : Nodes) : StrictWeak (greater nodes) :=
  strictWeak_rank fun p => (deref nodes p).cache_access_time

theorem deref_of_some {nodes : Nodes} {p : ℕ} {e : FileHashCache} (h : nodes[p]? = some e) :
    deref nodes p = e := by
  rw [deref, h, Option.getD_some]

/-- Nodes elsewhere do not matter to the heap. -/
theorem isHeap_congr {nodes nodes' : Nodes} {lru : List ℕ} (h : IsHeap (greater nodes) lru)
    (hsame : ∀ p ∈ lru, nodes'[p]? = nodes[p]?) : IsHeap (greater nodes') lru := by
  refine h.congr fun a ha b hb => ?_
  rw [greater, greater, deref, deref, deref, deref, hsame a ha, hsame b hb]

theorem linked_empty : Linked Store.empty where
  nodup := List.nodup_nil
  mem_iff := by simp [Store.empty]
  entry_path := by simp [Store.empty]
  heap := isHeap_nil

section Steps

variable (lib : Library) {s s' s'' : Store} {path path' : String} {p : ℕ} {e : FileHashCache}

theorem Linked.entry_of_cache (h : Linked s) (hp : s.cache[path]? = some p) :
    s.entry path = some (deref s.nodes p) ∧ (deref s.nodes p).path = path := by
  obtain ⟨e, he, hpath⟩ := h.entry_path path p hp
  rw [Store.entry, hp, Option.bind_some, deref_of_some he]
  exact ⟨he, hpath⟩

/-- Two paths have different nodes. -/
theorem Linked.path_inj (h : Linked s) (hp : s.cache[path]? = some p)
    (hp' : s.cache[path']? = some p) : path = path' :=
  (h.entry_of_cache hp).2.symm.trans (h.entry_of_cache hp').2

theorem entry_eq_none_iff (h : Linked s) : s.entry path = none ↔ s.cache[path]? = none := by
  constructor
  · intro hnone
    cases hp : s.cache[path]? with
    | none => rfl
    | some p =>
        rw [(h.entry_of_cache hp).1] at hnone
        cases hnone
  · intro hnone
    rw [Store.entry, hnone, Option.bind_none]

theorem Linked.mem_lru (h : Linked s) (hp : s.cache[path]? = some p) : p ∈ s.lru :=
  (h.mem_iff p).mpr ⟨path, hp⟩

/-! ### Eviction -/

/-- The state after an eviction has some of the entries, and those that are gone were not used
later. -/
structure Shrinks (s s' : Store) : Prop where
  linked : Linked s'
  kept : ∀ path e, s'.entry path = some e → s.entry path = some e
  oldest : RemovesOldest s s'
  size_le : s'.cache.size ≤ s.cache.size

theorem Shrinks.refl (h : Linked s) : Shrinks s s where
  linked := h
  kept := fun _ _ he => he
  oldest := by
    intro path path' e e' he hnone
    rw [he] at hnone
    cases hnone
  size_le := Nat.le_refl _

theorem Shrinks.trans (h : Shrinks s s') (h' : Shrinks s' s'') : Shrinks s s'' where
  linked := h'.linked
  kept := fun path e he => h.kept path e (h'.kept path e he)
  oldest := by
    intro path path' e e' he hnone he' hleft
    obtain ⟨f, hf⟩ := Option.ne_none_iff_exists'.mp hleft
    have hf' := h'.kept path' f hf
    have hsame : s'.entry path' = some e' := by
      rw [hf', ← he', h.kept path' f hf']
    cases hmid : s'.entry path with
    | none =>
        exact h.oldest path path' e e' he hmid he' (by rw [hsame]; exact Option.some_ne_none _)
    | some g =>
        obtain rfl : e = g := Option.some.inj (he.symm.trans (h.kept path g hmid))
        exact h'.oldest path path' e e' hmid hnone hsame hleft
  size_le := h'.size_le.trans h.size_le

/-- One turn takes the front of the heap with its entry. -/
theorem Linked.evictOne_eq (h : Linked s) {front : ℕ} {rest : List ℕ}
    (hlru : s.lru = front :: rest) : ∃ path rest', s.cache[path]? = some front ∧
      lib.evictOne s = ⟨s.nodes.erase front, s.cache.erase path, rest'⟩ ∧ rest'.Perm rest ∧
        IsHeap (greater s.nodes) rest' := by
  obtain ⟨path, hp⟩ := (h.mem_iff front).mp (hlru ▸ List.mem_cons_self)
  have hheap := h.heap
  rw [hlru] at hheap
  obtain ⟨rest', hpop, hperm, hheap'⟩ :=
    lib.heap.pop_heap_eq (strictWeak_greater s.nodes) hheap
  refine ⟨path, rest', hp, ?_, hperm, hheap'⟩
  rw [Library.evictOne, hlru]
  dsimp only
  rw [(h.entry_of_cache hp).2, hp, hpop, List.dropLast_concat]

section Removal

variable {front : ℕ} {rest rest' : List ℕ}

theorem Linked.remove (h : Linked s) (hlru : s.lru = front :: rest)
    (hp : s.cache[path]? = some front) (hperm : rest'.Perm rest)
    (hheap : IsHeap (greater s.nodes) rest') :
    Linked ⟨s.nodes.erase front, s.cache.erase path, rest'⟩ := by
  have hnodup := h.nodup
  rw [hlru, List.nodup_cons] at hnodup
  have hrest : ∀ q, q ∈ rest' ↔ q ∈ s.lru ∧ q ≠ front := by
    intro q
    rw [hperm.mem_iff, hlru, List.mem_cons]
    constructor
    · intro hq
      exact ⟨Or.inr hq, fun heq => hnodup.1 (heq ▸ hq)⟩
    · rintro ⟨heq | hq, hne⟩
      · exact absurd heq hne
      · exact hq
  have hkeep : ∀ q, q ≠ front → (s.nodes.erase front)[q]? = s.nodes[q]? := by
    intro q hq
    rw [Std.ExtTreeMap.getElem?_erase, if_neg]
    rw [Std.LawfulEqCmp.compare_eq_iff_eq]
    exact fun heq => hq heq.symm
  have hcache : ∀ (path' : String) q, (s.cache.erase path)[path']? = some q ↔
      s.cache[path']? = some q ∧ q ≠ front := by
    intro path' q
    rw [Std.ExtTreeMap.getElem?_erase]
    by_cases hpath : path = path'
    · subst path'
      rw [if_pos (Std.LawfulEqCmp.compare_eq_iff_eq.mpr rfl), hp]
      simp [eq_comm]
    · rw [if_neg (Std.LawfulEqCmp.compare_eq_iff_eq.not.mpr hpath)]
      refine ⟨fun hq => ⟨hq, ?_⟩, And.left⟩
      rintro rfl
      exact hpath (h.path_inj hp hq)
  constructor
  · exact hperm.nodup_iff.mpr hnodup.2
  · intro q
    simp only [hrest, hcache, h.mem_iff, exists_and_right]
  · intro path' q hq
    obtain ⟨hold, hne⟩ := (hcache path' q).mp hq
    dsimp only
    rw [hkeep q hne]
    exact h.entry_path path' q hold
  · exact isHeap_congr hheap fun q hq => hkeep q ((hrest q).mp hq).2

theorem Linked.entry_remove (h : Linked s) (hp : s.cache[path]? = some front) (path' : String) :
    (⟨s.nodes.erase front, s.cache.erase path, rest'⟩ : Store).entry path' =
      if path = path' then none else s.entry path' := by
  rw [Store.entry]
  dsimp only
  rw [Std.ExtTreeMap.getElem?_erase]
  by_cases hpath : path = path'
  · rw [if_pos (Std.LawfulEqCmp.compare_eq_iff_eq.mpr hpath), if_pos hpath, Option.bind_none]
  · rw [if_neg (Std.LawfulEqCmp.compare_eq_iff_eq.not.mpr hpath), if_neg hpath, Store.entry]
    cases hq : s.cache[path']? with
    | none => rfl
    | some q =>
        have hne : ¬ compare front q = Ordering.eq := by
          rw [Std.LawfulEqCmp.compare_eq_iff_eq]
          rintro rfl
          exact hpath (h.path_inj hp hq)
        rw [Option.bind_some, Option.bind_some, Std.ExtTreeMap.getElem?_erase, if_neg hne]

end Removal

theorem Linked.shrinks_evictOne (h : Linked s) : Shrinks s (lib.evictOne s) := by
  cases hlru : s.lru with
  | nil =>
      rw [Library.evictOne, hlru]
      exact Shrinks.refl h
  | cons front rest =>
      obtain ⟨path, rest', hp, heq, hperm, hheap⟩ := h.evictOne_eq lib hlru
      rw [heq]
      refine ⟨h.remove hlru hp hperm hheap, fun path' e he => ?_, ?_, ?_⟩
      · rw [h.entry_remove hp] at he
        split at he
        · cases he
        · exact he
      · intro path₁ path₂ e e' he hnone he' hleft
        rw [h.entry_remove hp] at hnone
        split at hnone
        · subst path₁
          rw [(h.entry_of_cache hp).1] at he
          obtain rfl := Option.some.inj he
          -- The front is not after any pointer, and every entry has one.
          obtain ⟨q, hq, hnode⟩ := Option.bind_eq_some_iff.mp he'
          have hheap₀ := h.heap
          have hmem := h.mem_lru hq
          rw [hlru] at hheap₀ hmem
          have hfront := hheap₀.front (strictWeak_greater s.nodes) q hmem
          rw [greater, decide_eq_false_iff_not, deref_of_some hnode] at hfront
          exact not_lt.mp hfront
        · rw [hnone] at he
          cases he
      · exact Std.ExtTreeMap.size_erase_le

theorem Linked.shrinks_evict (h : Linked s) (n : ℕ) : Shrinks s (lib.evict n s) := by
  induction n generalizing s with
  | zero => exact Shrinks.refl h
  | succ n ih =>
      have hone := h.shrinks_evictOne lib
      exact hone.trans (ih hone.linked)

/-- An eviction from a cache with entries makes room. -/
theorem Linked.size_evict_lt (h : Linked s) (hsize : 0 < s.cache.size) (n : ℕ) :
    (lib.evict (n + 1) s).cache.size < s.cache.size := by
  cases hlru : s.lru with
  | nil =>
      have hempty : s.cache = ∅ := by
        apply Std.ExtTreeMap.ext_getElem?
        intro path
        cases hp : s.cache[path]? with
        | none => simp
        | some p =>
            have hmem := h.mem_lru hp
            rw [hlru] at hmem
            cases hmem
      rw [hempty] at hsize
      cases hsize
  | cons front rest =>
      obtain ⟨path, rest', hp, heq, hperm, hheap⟩ := h.evictOne_eq lib hlru
      have hlinked := h.remove hlru hp hperm hheap
      have hmem : path ∈ s.cache := by
        rw [← Std.ExtTreeMap.isSome_getElem?_iff_mem, hp]
        rfl
      have hless : (s.cache.erase path).size < s.cache.size := by
        rw [Std.ExtTreeMap.size_erase, if_pos (Std.ExtTreeMap.mem_iff_contains.mp hmem)]
        omega
      have hrest := (hlinked.shrinks_evict lib n).size_le
      rw [Library.evict, heq]
      exact lt_of_le_of_lt hrest hless

/-! ### A new entry and a changed entry -/

theorem Linked.add (h : Linked s) {new : FileHashCache} (hnew : s.cache[new.path]? = none) :
    Linked (lib.add new s) := by
  have halloc := lib.allocate_new s.nodes
  have hout : lib.allocate s.nodes ∉ s.lru := by
    intro hmem
    obtain ⟨path, hp⟩ := (h.mem_iff _).mp hmem
    obtain ⟨e, he, -⟩ := h.entry_path path _ hp
    rw [Std.ExtTreeMap.getElem?_eq_none halloc] at he
    cases he
  have hkeep : ∀ q, q ∈ s.lru → (s.nodes.insert (lib.allocate s.nodes) new)[q]? = s.nodes[q]? := by
    intro q hq
    rw [Std.ExtTreeMap.getElem?_insert, if_neg]
    rw [Std.LawfulEqCmp.compare_eq_iff_eq]
    rintro rfl
    exact hout hq
  have hheap := isHeap_congr h.heap hkeep
  have hweak := strictWeak_greater (s.nodes.insert (lib.allocate s.nodes) new)
  have hperm := lib.heap.push_heap_perm (lib.allocate s.nodes) hweak hheap
  have hcache : ∀ (path : String) q,
      (s.cache.insert new.path (lib.allocate s.nodes))[path]? = some q ↔
        (path = new.path ∧ q = lib.allocate s.nodes) ∨ s.cache[path]? = some q := by
    intro path q
    rw [Std.ExtTreeMap.getElem?_insert]
    by_cases hpath : new.path = path
    · subst path
      rw [if_pos (Std.LawfulEqCmp.compare_eq_iff_eq.mpr rfl), hnew]
      simp [eq_comm]
    · rw [if_neg (Std.LawfulEqCmp.compare_eq_iff_eq.not.mpr hpath)]
      simp [Ne.symm hpath]
  constructor
  · refine hperm.nodup_iff.mpr (h.nodup.append (List.nodup_singleton _) ?_)
    rw [List.disjoint_singleton]
    exact hout
  · intro q
    refine hperm.mem_iff.trans ?_
    simp only [Library.add, hcache, List.mem_append, List.mem_singleton, h.mem_iff]
    constructor
    · rintro (⟨path, hq⟩ | rfl)
      · exact ⟨path, Or.inr hq⟩
      · exact ⟨new.path, Or.inl ⟨rfl, rfl⟩⟩
    · rintro ⟨path, ⟨-, rfl⟩ | hq⟩
      · exact Or.inr rfl
      · exact Or.inl ⟨path, hq⟩
  · intro path q hq
    obtain ⟨rfl, rfl⟩ | hold := (hcache path q).mp hq
    · exact ⟨new, Std.ExtTreeMap.getElem?_insert_self, rfl⟩
    · obtain ⟨e, he, hpath⟩ := h.entry_path path q hold
      exact ⟨e, (hkeep q (h.mem_lru hold)).trans he, hpath⟩
  · exact lib.heap.isHeap_push_heap (lib.allocate s.nodes) hweak hheap

theorem Linked.entry_add (h : Linked s) (new : FileHashCache) (path : String) :
    (lib.add new s).entry path = if new.path = path then some new else s.entry path := by
  rw [Store.entry, Library.add]
  dsimp only
  rw [Std.ExtTreeMap.getElem?_insert]
  by_cases hpath : new.path = path
  · rw [if_pos (Std.LawfulEqCmp.compare_eq_iff_eq.mpr hpath), if_pos hpath, Option.bind_some,
      Std.ExtTreeMap.getElem?_insert_self]
  · rw [if_neg (Std.LawfulEqCmp.compare_eq_iff_eq.not.mpr hpath), if_neg hpath, Store.entry]
    cases hq : s.cache[path]? with
    | none => rfl
    | some q =>
        have hne : ¬ compare (lib.allocate s.nodes) q = Ordering.eq := by
          rw [Std.LawfulEqCmp.compare_eq_iff_eq]
          rintro rfl
          obtain ⟨e, he, -⟩ := h.entry_path path _ hq
          rw [Std.ExtTreeMap.getElem?_eq_none (lib.allocate_new s.nodes)] at he
          cases he
        rw [Option.bind_some, Option.bind_some, Std.ExtTreeMap.getElem?_insert, if_neg hne]

theorem Linked.change (h : Linked s) (hp : s.cache[path]? = some p) (hpath : e.path = path) :
    Linked (lib.change p e s) := by
  have hweak := strictWeak_greater (s.nodes.insert p e)
  have hperm := lib.heap.make_heap_perm s.lru hweak
  constructor
  · exact hperm.nodup_iff.mpr h.nodup
  · intro q
    exact hperm.mem_iff.trans (h.mem_iff q)
  · intro path' q hq
    change ∃ e', (s.nodes.insert p e)[q]? = some e' ∧ e'.path = path'
    rw [Std.ExtTreeMap.getElem?_insert]
    by_cases hpq : p = q
    · subst q
      rw [if_pos (Std.LawfulEqCmp.compare_eq_iff_eq.mpr rfl)]
      exact ⟨e, rfl, hpath.trans (h.path_inj hp hq)⟩
    · rw [if_neg (Std.LawfulEqCmp.compare_eq_iff_eq.not.mpr hpq)]
      exact h.entry_path path' q hq
  · exact lib.heap.isHeap_make_heap s.lru hweak

theorem Linked.entry_change (h : Linked s) (hp : s.cache[path]? = some p) (path' : String) :
    (lib.change p e s).entry path' = if path = path' then some e else s.entry path' := by
  rw [Store.entry, Library.change, Store.entry]
  dsimp only
  by_cases hpath : path = path'
  · subst path'
    rw [hp, Option.bind_some, Std.ExtTreeMap.getElem?_insert_self, if_pos rfl]
  · rw [if_neg hpath]
    cases hq : s.cache[path']? with
    | none => rfl
    | some q =>
        have hne : ¬ compare p q = Ordering.eq := by
          rw [Std.LawfulEqCmp.compare_eq_iff_eq]
          rintro rfl
          exact hpath (h.path_inj hp hq)
        rw [Option.bind_some, Option.bind_some, Std.ExtTreeMap.getElem?_insert, if_neg hne]

/-- A step that loses no entry removes nothing. -/
theorem removesOldest_of_kept
    (h : ∀ path e, s.entry path = some e → s'.entry path ≠ none) : RemovesOldest s s' := by
  intro path path' e e' he hnone
  exact absurd hnone (h path e he)

/-! ### One call -/

theorem statInvalid_eq_false {st : Stat} {fh : FileHashCache} :
    statInvalid st fh = false ↔
      fh.file_inode = st.st_ino ∧ fh.file_mtime = st.st_mtime ∧ fh.file_size = st.st_size := by
  rw [statInvalid]
  split
  · next h =>
      refine ⟨fun hfalse => absurd hfalse Bool.noConfusion, ?_⟩
      rintro ⟨hino, hmtime, -⟩
      exact absurd h (not_or_intro (not_not_intro hino.symm) (not_not_intro hmtime.symm))
  · next h =>
      rw [not_or, not_not, not_not] at h
      rw [decide_eq_false_iff_not, not_not]
      exact ⟨fun hs => ⟨h.1.symm, h.2.symm, hs.symm⟩, fun hs => hs.2.2.symm⟩

/-- A file without an entry gets one, after an eviction when the cache is full. -/
theorem step_of_new {hash_cache_max : ℕ} (hmax : 1 ≤ hash_cache_max) (h : Linked s)
    (hsize : s.cache.size ≤ hash_cache_max) {call : Call} {st : Stat} (hstat : call.stat = some st)
    (hp : s.cache[call.path]? = none) : ∃ s', Shrinks s s' ∧ s'.cache.size < hash_cache_max ∧
      lib.step hash_cache_max s call =
        lib.add ⟨st.st_mtime, st.st_ino, st.st_size, call.time, call.hashes, call.path⟩ s' := by
  rw [Library.step, Library.load, hstat]
  dsimp only
  rw [hp]
  dsimp only
  by_cases hfull : s.cache.size ≥ hash_cache_max
  · rw [if_pos hfull]
    refine ⟨_, h.shrinks_evict lib kHashCacheEvictSize, ?_, rfl⟩
    exact (h.size_evict_lt lib (by omega) 4).trans_le hsize
  · rw [if_neg hfull]
    exact ⟨s, Shrinks.refl h, not_le.mp hfull, rfl⟩

/-- The entry that a file has is changed in its node, and keeps its inode. -/
theorem step_of_known (hash_cache_max : ℕ) {call : Call} {st : Stat} (hstat : call.stat = some st)
    (hp : s.cache[call.path]? = some p) : ∃ e', e'.path = (deref s.nodes p).path ∧
      e'.file_inode = (deref s.nodes p).file_inode ∧ e'.file_mtime = st.st_mtime ∧
        e'.file_size = st.st_size ∧ lib.step hash_cache_max s call = lib.change p e' s := by
  rw [Library.step, Library.load, hstat]
  dsimp only
  rw [hp]
  dsimp only
  cases hvalid : statInvalid st (deref s.nodes p) with
  | true =>
      exact ⟨{ deref s.nodes p with
        cache_access_time := call.time
        file_mtime := st.st_mtime
        file_size := st.st_size
        hashes := call.hashes }, rfl, rfl, rfl, rfl, rfl⟩
  | false =>
      obtain ⟨-, hmtime, hfile⟩ := statInvalid_eq_false.mp hvalid
      exact ⟨{ deref s.nodes p with cache_access_time := call.time }, rfl, rfl, hmtime, hfile, rfl⟩

theorem step_of_missing (hash_cache_max : ℕ) {call : Call} (hstat : call.stat = none) :
    lib.step hash_cache_max s call = s := by
  rw [Library.step, Library.load, hstat]

/-- A new file keeps the heap and the map together, and its eviction takes the oldest entries. -/
theorem Linked.keepsHeap_of_new {hash_cache_max : ℕ} (hmax : 1 ≤ hash_cache_max) (h : Linked s)
    (hsize : s.cache.size ≤ hash_cache_max) {call : Call} {st : Stat} (hstat : call.stat = some st)
    (hp : s.cache[call.path]? = none) : KeepsHeap lib hash_cache_max s call := by
  obtain ⟨s', hshrinks, hroom, hstep⟩ := step_of_new lib hmax h hsize hstat hp
  have hnone : s.entry call.path = none := (entry_eq_none_iff h).mpr hp
  have hnew : s'.cache[call.path]? = none := by
    rw [← entry_eq_none_iff hshrinks.linked]
    cases he : s'.entry call.path with
    | none => rfl
    | some e =>
        rw [hshrinks.kept _ e he] at hnone
        cases hnone
  constructor
  · rw [hstep]
    exact hshrinks.linked.add lib hnew
  · rw [hstep]
    exact Std.ExtTreeMap.size_insert_le.trans hroom
  · intro path path' e e' he hgone he' hleft
    rw [hstep, hshrinks.linked.entry_add] at hgone hleft
    have hother : call.path ≠ path' := by
      rintro rfl
      rw [hnone] at he'
      cases he'
    rw [if_neg hother] at hleft
    split at hgone
    · cases hgone
    · exact hshrinks.oldest path path' e e' he hgone he' hleft

/-- A file with an entry keeps the heap and the map together. Nothing is removed. -/
theorem Linked.keepsHeap_of_known {hash_cache_max : ℕ} (h : Linked s)
    (hsize : s.cache.size ≤ hash_cache_max) {call : Call} {st : Stat} (hstat : call.stat = some st)
    (hp : s.cache[call.path]? = some p) : KeepsHeap lib hash_cache_max s call := by
  obtain ⟨e, hpath, -, -, -, hstep⟩ := step_of_known lib hash_cache_max hstat hp
  rw [(h.entry_of_cache hp).2] at hpath
  constructor
  · rw [hstep]
    exact h.change lib hp hpath
  · rw [hstep]
    exact hsize
  · rw [hstep]
    refine removesOldest_of_kept fun path f hf => ?_
    rw [h.entry_change lib hp]
    split
    · exact Option.some_ne_none _
    · rw [hf]
      exact Option.some_ne_none _

/-- A call keeps the heap and the map together, whatever it loads. -/
theorem Linked.keepsHeap {hash_cache_max : ℕ} (hmax : 1 ≤ hash_cache_max) (h : Linked s)
    (hsize : s.cache.size ≤ hash_cache_max) (call : Call) :
    KeepsHeap lib hash_cache_max s call := by
  cases hstat : call.stat with
  | none =>
      have hstep : lib.step hash_cache_max s call = s :=
        step_of_missing lib hash_cache_max hstat
      constructor
      · rwa [hstep]
      · rwa [hstep]
      · rw [hstep]
        exact (Shrinks.refl h).oldest
  | some st =>
      cases hp : s.cache[call.path]? with
      | none => exact h.keepsHeap_of_new lib hmax hsize hstat hp
      | some p => exact h.keepsHeap_of_known lib hsize hstat hp

/-- A call records what `stat` says when the file has the inode of its entry, and only then. -/
theorem Linked.records_iff {hash_cache_max : ℕ} (hmax : 1 ≤ hash_cache_max) (h : Linked s)
    (hsize : s.cache.size ≤ hash_cache_max) (call : Call) :
    Records (lib.step hash_cache_max s call) call ↔ SameInode s call := by
  cases hstat : call.stat with
  | none =>
      constructor
      · intro _ st e hst
        rw [hstat] at hst
        cases hst
      · intro _ st hst
        rw [hstat] at hst
        cases hst
  | some st =>
      cases hp : s.cache[call.path]? with
      | none =>
          obtain ⟨s', hshrinks, -, hstep⟩ := step_of_new lib hmax h hsize hstat hp
          refine iff_of_true ?_ ?_
          · intro st' hst'
            obtain rfl := Option.some.inj (hstat.symm.trans hst')
            rw [hstep]
            exact ⟨_, (hshrinks.linked.entry_add lib _ _).trans (if_pos rfl), rfl, rfl, rfl⟩
          · intro st' e _ he
            rw [(entry_eq_none_iff h).mpr hp] at he
            cases he
      | some p =>
          obtain ⟨e, -, hinode, hmtime, hfile, hstep⟩ :=
            step_of_known lib hash_cache_max hstat hp
          have hentry : (lib.change p e s).entry call.path = some e :=
            (h.entry_change lib hp _).trans (if_pos rfl)
          constructor
          · intro hrecords st' old hst' hold
            obtain ⟨e', he', hino, -⟩ := hrecords st' hst'
            rw [hstep, hentry] at he'
            obtain rfl := Option.some.inj he'
            obtain rfl := Option.some.inj ((h.entry_of_cache hp).1.symm.trans hold)
            exact hinode.symm.trans hino
          · intro hsame st' hst'
            have hino := hsame st' _ hst' (h.entry_of_cache hp).1
            obtain rfl := Option.some.inj (hstat.symm.trans hst')
            rw [hstep]
            exact ⟨e, hentry, hinode.trans hino, hmtime, hfile⟩

theorem Linked.keeps_iff {hash_cache_max : ℕ} (hmax : 1 ≤ hash_cache_max) (h : Linked s)
    (hsize : s.cache.size ≤ hash_cache_max) (call : Call) :
    Keeps lib hash_cache_max s call ↔ SameInode s call := by
  rw [← h.records_iff lib hmax hsize call]
  exact ⟨Keeps.records, fun hrecords => ⟨h.keepsHeap lib hmax hsize call, hrecords⟩⟩

end Steps

/-- In every run the heap and the map are kept together, with the oldest entries removed first.
The entries have what `stat` said right after each call exactly when no call finds an entry of
its path with another inode than the file has. -/
theorem keeps_throughout (lib : Library) {hash_cache_max : ℕ} (hmax : 1 ≤ hash_cache_max)
    (calls : List Call) :
    Throughout (lib.step hash_cache_max) (KeepsHeap lib hash_cache_max) Store.empty calls ∧
      (Throughout (lib.step hash_cache_max) (Keeps lib hash_cache_max) Store.empty calls ↔
        Throughout (lib.step hash_cache_max) SameInode Store.empty calls) := by
  have hempty : Linked Store.empty ∧ Store.empty.cache.size ≤ hash_cache_max :=
    ⟨linked_empty, Nat.zero_le _⟩
  constructor
  · have htrivial : Throughout (lib.step hash_cache_max) (fun _ _ => True) Store.empty calls :=
      throughout_const.mpr fun _ _ => trivial
    refine Throughout.imp (I := fun s => Linked s ∧ s.cache.size ≤ hash_cache_max) ?_ hempty
      htrivial
    rintro s call ⟨hlinked, hsize⟩ -
    have hkeeps := hlinked.keepsHeap lib hmax hsize call
    exact ⟨hkeeps, hkeeps.linked, hkeeps.size_le⟩
  · refine throughout_iff (R := fun s t => s = t ∧ Linked s ∧ s.cache.size ≤ hash_cache_max)
      ?_ ?_ (fun _ _ => trivial) ⟨rfl, hempty⟩
    · rintro s _ call ⟨rfl, hlinked, hsize⟩ -
      exact hlinked.keeps_iff lib hmax hsize call
    · rintro s _ call ⟨rfl, hlinked, hsize⟩ - hsame
      have hkeeps := hlinked.keepsHeap lib hmax hsize call
      exact ⟨rfl, hkeeps.linked, hkeeps.size_le⟩

/-- A heap in order, and nodes that are allocated after the last address. -/
def Library.ordered : Library where
  heap := sorting
  allocate := fun nodes => nodes.keys.max?.getD 0 + 1
  allocate_new := by
    intro nodes hmem
    have hle : nodes.keys.max?.getD 0 + 1 ≤ nodes.keys.max?.getD 0 :=
      List.le_max?_getD_of_mem (Std.ExtTreeMap.mem_keys.mpr hmem)
    omega

/-- Two files take turns in a cache for one entry. -/
theorem keeps_throughout_two_files :
    Throughout (Library.ordered.step 1) (Keeps Library.ordered 1) Store.empty
      [⟨"/a", some ⟨5, 1, 10⟩, {}, 20⟩, ⟨"/b", some ⟨6, 1, 10⟩, {}, 21⟩,
        ⟨"/b", some ⟨6, 2, 10⟩, {}, 22⟩] := by
  refine (keeps_throughout Library.ordered (by decide) _).2.mpr ⟨?_, ?_, ?_, trivial⟩
  · intro st e _ he
    cases he
  · intro st e _ he
    have hnone : (Library.ordered.step 1 Store.empty
        ⟨"/a", some ⟨5, 1, 10⟩, {}, 20⟩).entry "/b" = none := by decide
    rw [hnone] at he
    cases he
  · intro st e hst he
    have hsome : (Library.ordered.step 1 (Library.ordered.step 1 Store.empty
        ⟨"/a", some ⟨5, 1, 10⟩, {}, 20⟩) ⟨"/b", some ⟨6, 1, 10⟩, {}, 21⟩).entry "/b" =
          some ⟨1, 6, 10, 21, {}, "/b"⟩ := by decide
    rw [hsome] at he
    obtain rfl := Option.some.inj he
    obtain rfl := Option.some.inj hst
    rfl

/-- A file that is exchanged for another one is recorded with its old inode. -/
theorem old_inode_recorded : ¬ ∀ (lib : Library) (hash_cache_max : ℕ) (calls : List Call),
    1 ≤ hash_cache_max →
      Throughout (lib.step hash_cache_max) (Keeps lib hash_cache_max) Store.empty calls := by
  intro h
  have hkeeps := (h Library.ordered 1
    [⟨"/a", some ⟨5, 1, 10⟩, {}, 20⟩, ⟨"/a", some ⟨7, 2, 10⟩, {}, 21⟩] (by decide)).2.1
  obtain ⟨e, he, hino, -⟩ := hkeeps.records ⟨7, 2, 10⟩ rfl
  have hentry : (Library.ordered.step 1 (Library.ordered.step 1 Store.empty
      ⟨"/a", some ⟨5, 1, 10⟩, {}, 20⟩) ⟨"/a", some ⟨7, 2, 10⟩, {}, 21⟩).entry "/a" =
        some ⟨2, 5, 10, 21, {}, "/a"⟩ := by decide
  obtain rfl := Option.some.inj (hentry.symm.trans he)
  exact absurd hino (by decide)

end Osquery.Tables.HashHeap
