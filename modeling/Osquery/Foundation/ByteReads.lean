import Mathlib.Data.List.GetD
import Mathlib.Data.List.TakeWhile

/-!
# Programs that read bytes of a memory

A program reads single bytes of a memory, or the text that ends at the next zero byte. A read
beyond the memory has no result. With its result a run gives the offsets that it read, so that
one can say where the bytes lie that a result is made of.
-/

namespace Osquery.Foundation.ByteReads

/-- A program with a result, and the offsets it reads. -/
def Reads (α : Type) : Type := List UInt8 → Option (α × List ℕ)

instance : Monad Reads where
  pure a := fun _ => some (a, [])
  bind p f := fun memory =>
    (p memory).bind fun first =>
      (f first.1 memory).map fun second => (second.1, first.2 ++ second.2)

def byte (i : ℕ) : Reads UInt8 := fun memory => memory[i]?.map (·, [i])

/-- The bytes up to the next zero byte, which is read as well. -/
def text (i : ℕ) : Reads (List UInt8) := fun memory =>
  let found := (memory.drop i).takeWhile (· ≠ 0)
  if i + found.length < memory.length then some (found, List.range' i (found.length + 1)) else none

/-- The program, with the offsets it reads as a part of its result. -/
def traced {α : Type} (p : Reads α) : Reads (α × List ℕ) := fun memory =>
  (p memory).map fun r => (r, r.2)

/-- The byte at an offset; zero beyond the memory. -/
def byteAt (memory : List UInt8) (i : ℕ) : UInt8 := memory.getD i 0

theorem drop_eq_cons {memory : List UInt8} {i : ℕ} (h : i < memory.length) :
    memory.drop i = byteAt memory i :: memory.drop (i + 1) := by
  rw [byteAt, List.getD_eq_getElem _ _ h, List.drop_eq_getElem_cons h]

theorem byteAt_drop (memory : List UInt8) (i j : ℕ) :
    byteAt (memory.drop i) j = byteAt memory (i + j) := by
  rw [byteAt, byteAt, List.getD_eq_getElem?_getD, List.getElem?_drop, List.getD_eq_getElem?_getD]

variable {α β : Type} {memory : List UInt8} {n : ℕ}

theorem bind_eq_some {p : Reads α} {f : α → Reads β} {a : α} {b : β} {first second : List ℕ}
    (hp : p memory = some (a, first)) (hf : f a memory = some (b, second)) :
    (p >>= f) memory = some (b, first ++ second) := by
  change (p memory).bind _ = _
  rw [hp, Option.bind_some, hf, Option.map_some]

/-- The program ends with the result, and the end of the bytes that it reads is exact. -/
def Extent (memory : List UInt8) (p : Reads α) (a : α) (stop : ℕ) : Prop :=
  ∃ read, p memory = some (a, read) ∧ ∀ m, (∀ i ∈ read, i < m) ↔ stop ≤ m

section Extent

variable {p : Reads α} {a : α} {stop : ℕ}

theorem Extent.of_eq (h : Extent memory p a stop) {other : ℕ} (heq : stop = other) :
    Extent memory p a other := heq ▸ h

theorem extent_pure (a : α) : Extent memory (pure a) a 0 :=
  ⟨[], rfl, fun m => ⟨fun _ => Nat.zero_le m, fun _ _ hi => by cases hi⟩⟩

theorem extent_byte {i : ℕ} (hi : i < memory.length) :
    Extent memory (byte i) (byteAt memory i) (i + 1) := by
  refine ⟨[i], ?_, fun m => ?_⟩
  · rw [byte, byteAt, List.getElem?_eq_getElem hi, Option.map_some, List.getD_eq_getElem _ _ hi]
  · rw [List.forall_mem_singleton, Nat.add_one_le_iff]

theorem extent_bind {f : α → Reads β} {b : β} {stop' : ℕ} (hp : Extent memory p a stop)
    (hf : Extent memory (f a) b stop') : Extent memory (p >>= f) b (max stop stop') := by
  obtain ⟨first, hfirst, hstop⟩ := hp
  obtain ⟨second, hsecond, hstop'⟩ := hf
  refine ⟨first ++ second, bind_eq_some hfirst hsecond, fun m => ?_⟩
  rw [List.forall_mem_append, hstop, hstop', Nat.max_le]

theorem extent_bind_pure (f : α → β) (hp : Extent memory p a stop) :
    Extent memory (p >>= fun b => pure (f b)) (f a) stop :=
  (extent_bind hp (extent_pure (f a))).of_eq (Nat.max_zero stop)

theorem extent_map (f : α → β) (hp : Extent memory p a stop) :
    Extent memory (f <$> p) (f a) stop := extent_bind_pure f hp

end Extent

/-- The program ends with the result, and reads the first bytes of the memory only. -/
def Within (memory : List UInt8) (n : ℕ) (p : Reads α) (a : α) : Prop :=
  ∃ read, p memory = some (a, read) ∧ ∀ i ∈ read, i < n

theorem Extent.within {p : Reads α} {a : α} {stop : ℕ} (h : Extent memory p a stop)
    (hstop : stop ≤ n) : Within memory n p a :=
  h.imp fun _ hread => ⟨hread.1, (hread.2 n).2 hstop⟩

theorem within_pure (a : α) : Within memory n (pure a) a :=
  (extent_pure a).within (Nat.zero_le n)

theorem within_byte {i : ℕ} (hi : i < n) (hn : n ≤ memory.length) :
    Within memory n (byte i) (byteAt memory i) :=
  (extent_byte (Nat.lt_of_lt_of_le hi hn)).within hi

theorem within_bind {p : Reads α} {f : α → Reads β} {a : α} {b : β} (hp : Within memory n p a)
    (hf : Within memory n (f a) b) : Within memory n (p >>= f) b := by
  obtain ⟨first, hfirst, hinside⟩ := hp
  obtain ⟨second, hsecond, hinside'⟩ := hf
  refine ⟨first ++ second, bind_eq_some hfirst hsecond, ?_⟩
  exact List.forall_mem_append.2 ⟨hinside, hinside'⟩

/-- What is taken ends before an element that is not. -/
theorem length_takeWhile_le {q : α → Bool} {xs : List α} {k : ℕ} {x : α} (hx : xs[k]? = some x)
    (hq : q x = false) : (xs.takeWhile q).length ≤ k := by
  by_contra hlong
  have hk : k < (xs.takeWhile q).length := Nat.lt_of_not_le hlong
  have htaken : (xs.takeWhile q)[k]? = some x := by
    rw [List.getElem?_eq_getElem hk, ← hx, (List.takeWhile_prefix q).getElem hk,
      List.getElem?_eq_getElem]
  have hall := List.mem_takeWhile_imp (List.mem_of_getElem? htaken)
  rw [hq] at hall
  cases hall

/-- A text that ends before the bound is read up to its zero byte. -/
theorem within_text {i k : ℕ} (hik : i ≤ k) (hk : k < n) (hn : n ≤ memory.length)
    (hzero : byteAt memory k = 0) :
    Within memory n (text i) ((memory.drop i).takeWhile (· ≠ 0)) := by
  have hlength : ((memory.drop i).takeWhile (· ≠ 0)).length ≤ k - i := by
    have hmemory : k < memory.length := Nat.lt_of_lt_of_le hk hn
    refine @length_takeWhile_le UInt8 _ _ _ 0 ?_ (by simp)
    rw [List.getElem?_drop, Nat.add_sub_cancel' hik, List.getElem?_eq_getElem hmemory, ← hzero,
      byteAt, List.getD_eq_getElem _ _ hmemory]
  refine ⟨_, if_pos (by omega), ?_⟩
  intro j hj
  rw [List.mem_range'_1] at hj
  omega

/-- Where the rest of the memory begins, and what it begins with. -/
theorem within_byte_of_drop {i : ℕ} {c : UInt8} {rest : List UInt8}
    (h : memory.drop i = c :: rest) : Within memory memory.length (byte i) c := by
  have hi : i < memory.length := by
    by_contra hlong
    rw [List.drop_eq_nil_of_le (Nat.le_of_not_lt hlong)] at h
    cases h
  rw [drop_eq_cons hi] at h
  exact (List.cons.inj h).1 ▸ within_byte hi le_rfl

theorem within_text_of_drop {i : ℕ} {found rest : List UInt8}
    (h : memory.drop i = found ++ 0 :: rest) (hfound : ∀ c ∈ found, c ≠ 0) :
    Within memory memory.length (text i) found := by
  have htaken : (memory.drop i).takeWhile (· ≠ 0) = found := by
    rw [h, List.takeWhile_append_of_pos fun c hc => by simpa using hfound c hc]
    simp
  have hlength := congrArg List.length h
  rw [List.length_drop, List.length_append, List.length_cons] at hlength
  have hzero : byteAt memory (i + found.length) = 0 := by
    have hget := congrArg (·[found.length]?) h
    simp only [List.getElem?_drop] at hget
    rw [byteAt, List.getD_eq_getElem?_getD, hget]
    simp
  exact htaken ▸ within_text (Nat.le_add_right i found.length) (by omega) le_rfl hzero

theorem within_map {p : Reads α} {a : α} (f : α → β) (hp : Within memory n p a) :
    Within memory n (f <$> p) (f a) :=
  within_bind hp (within_pure (f a))

/-- The program ends with the result. -/
def Returns (memory : List UInt8) (p : Reads α) (a : α) : Prop :=
  ∃ read, p memory = some (a, read)

theorem Within.returns {p : Reads α} {a : α} (h : Within memory n p a) : Returns memory p a :=
  h.imp fun _ hread => hread.1

theorem Returns.unique {p : Reads α} {a b : α} (ha : Returns memory p a) (hb : Returns memory p b) :
    a = b := by
  obtain ⟨read, hread⟩ := ha
  obtain ⟨read', hread'⟩ := hb
  rw [hread] at hread'
  exact (Prod.mk.inj (Option.some.inj hread')).1

theorem returns_bind_iff {p : Reads α} {f : α → Reads β} {b : β} :
    Returns memory (p >>= f) b ↔ ∃ a, Returns memory p a ∧ Returns memory (f a) b := by
  constructor
  · rintro ⟨read, hread⟩
    change (p memory).bind _ = _ at hread
    obtain ⟨⟨a, first⟩, hfirst, hrest⟩ := Option.bind_eq_some_iff.1 hread
    obtain ⟨⟨b', second⟩, hsecond, hpair⟩ := Option.map_eq_some_iff.1 hrest
    obtain rfl : b' = b := (Prod.mk.inj hpair).1
    exact ⟨a, ⟨first, hfirst⟩, second, hsecond⟩
  · rintro ⟨a, ⟨first, hfirst⟩, second, hsecond⟩
    exact ⟨first ++ second, bind_eq_some hfirst hsecond⟩

theorem returns_pure_iff {a b : α} : Returns memory (pure a) b ↔ a = b :=
  ⟨fun h => Returns.unique ⟨[], rfl⟩ h, fun h => ⟨[], h ▸ rfl⟩⟩

theorem eq_byteAt_of_returns {i : ℕ} {c : UInt8} (h : Returns memory (byte i) c) :
    c = byteAt memory i := by
  obtain ⟨read, hread⟩ := h
  obtain ⟨d, hd, hpair⟩ := Option.map_eq_some_iff.1 hread
  obtain rfl : d = c := (Prod.mk.inj hpair).1
  rw [byteAt, List.getD_eq_getElem?_getD, hd, Option.getD_some]

theorem returns_traced_iff {p : Reads α} {a : α} {read : List ℕ} :
    Returns memory (traced p) (a, read) ↔ p memory = some (a, read) := by
  constructor
  · rintro ⟨read', hread⟩
    obtain ⟨r, hr, hpair⟩ := Option.map_eq_some_iff.1 hread
    rw [hr, (Prod.mk.inj hpair).1]
  · intro h
    refine ⟨read, ?_⟩
    rw [traced, h, Option.map_some]

/-- The program ends, and reads the first bytes of the memory only. -/
def Safe (memory : List UInt8) (n : ℕ) (p : Reads α) : Prop := ∃ a, Within memory n p a

theorem Within.safe {p : Reads α} {a : α} (h : Within memory n p a) : Safe memory n p := ⟨a, h⟩

theorem safe_pure (a : α) : Safe memory n (pure a) := (within_pure a).safe

theorem Within.safe_bind {p : Reads α} {f : α → Reads β} {a : α} (hp : Within memory n p a)
    (hf : Safe memory n (f a)) : Safe memory n (p >>= f) := by
  obtain ⟨b, hb⟩ := hf
  exact (within_bind hp hb).safe

theorem safe_bind {p : Reads α} {f : α → Reads β} (hp : Safe memory n p)
    (hf : ∀ a, Safe memory n (f a)) : Safe memory n (p >>= f) := by
  obtain ⟨a, ha⟩ := hp
  exact ha.safe_bind (hf a)

theorem safe_traced {p : Reads α} (hp : Safe memory n p) : Safe memory n (traced p) := by
  obtain ⟨a, read, hread, hinside⟩ := hp
  refine ⟨(a, read), read, ?_, hinside⟩
  rw [traced, hread, Option.map_some]

end Osquery.Foundation.ByteReads
