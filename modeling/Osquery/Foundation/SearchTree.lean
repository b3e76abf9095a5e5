import Mathlib.Data.List.Induction

/-!
# Search trees with any comparator

A search tree that is driven by a comparator, as a multiset is: a key goes to the left
of the keys that it is less than, and the search for a key descends to the last key that
is not less. The comparator need not be an order. What a search meets is then a matter
of the order of insertion: a key is met when it went to the side of every key met before
it on which the search goes on. With a comparator that fails for some keys, all keys have to be
ones that it compares.

## Implementation notes

Trees are not rebalanced. The keys that a search meets are a list in the order of their
insertion.
-/

namespace Osquery.Foundation.SearchTree

variable {α : Type*} (lt : α → α → Bool)

inductive Tree (α : Type*)
  | nil
  | node (left : Tree α) (key : α) (right : Tree α)

namespace Tree

def insert (x : α) : Tree α → Tree α
  | nil => node nil x nil
  | node left key right =>
      if lt x key then node (insert x left) key right else node left key (insert x right)

/-- The last key on the way down that is not less than `k`. -/
def lowerBound (k : α) (bound : Option α) : Tree α → Option α
  | nil => bound
  | node left key right =>
      if lt key k then lowerBound k bound right else lowerBound k (some key) left

def find (k : α) (t : Tree α) : Bool :=
  match lowerBound lt k none t with
  | none => false
  | some y => !lt k y

/-- The keys on the way down. -/
def way (k : α) : Tree α → List α
  | nil => []
  | node left key right => key :: if lt key k then way k right else way k left

def insertAll (xs : List α) : Tree α := xs.foldl (fun t x => insert lt x t) nil

end Tree

/-- A key went to the side of `r` on which the search for `k` goes on. -/
def sameSide (k r x : α) : Bool := lt x r == !lt r k

/-- The keys that the search for `k` meets. -/
def met (k : α) (xs : List α) : List α :=
  xs.foldl (fun kept x => if kept.all fun r => sameSide lt k r x then kept ++ [x] else kept) []

/-- Neither key is less than the other. -/
def Equivalent (p k : α) : Prop := lt p k = false ∧ lt k p = false

/-- The last key met that is not less than `k` is equivalent to it. -/
def Reached (k : α) (xs : List α) : Prop :=
  ∃ before p after, met lt k xs = before ++ p :: after ∧ Equivalent lt p k ∧
    ∀ y ∈ after, lt y k = true

/-! ### The way of a search -/

namespace Tree

variable {lt}

theorem way_of_less {k key : α} (h : lt key k = true) (left right : Tree α) :
    way lt k (node left key right) = key :: way lt k right := by
  rw [way, if_pos h]

theorem way_of_not_less {k key : α} (h : lt key k = false) (left right : Tree α) :
    way lt k (node left key right) = key :: way lt k left := by
  rw [way, if_neg (by simp [h])]

theorem cons_ite (key x : α) (w : List α) (c : Bool) :
    (key :: if c then w ++ [x] else w) = if c then key :: w ++ [x] else key :: w := by
  cases c with
  | true => rfl
  | false => rfl

/-- A key that is inserted is met last or not at all. -/
theorem way_insert (k x : α) (t : Tree α) :
    way lt k (insert lt x t) =
      if (way lt k t).all fun r => sameSide lt k r x then way lt k t ++ [x] else way lt k t := by
  induction t with
  | nil => simp [insert, way]
  | node left key right ihl ihr =>
      cases hx : lt x key with
      | true =>
          rw [insert, if_pos hx]
          cases hk : lt key k with
          | true =>
              have hside : sameSide lt k key x = false := by simp [sameSide, hx, hk]
              rw [way_of_less hk, way_of_less hk, List.all_cons, hside]
              rfl
          | false =>
              have hside : sameSide lt k key x = true := by simp [sameSide, hx, hk]
              rw [way_of_not_less hk, way_of_not_less hk, ihl, List.all_cons, hside,
                Bool.true_and, cons_ite]
      | false =>
          rw [insert, if_neg (by simp [hx])]
          cases hk : lt key k with
          | true =>
              have hside : sameSide lt k key x = true := by simp [sameSide, hx, hk]
              rw [way_of_less hk, way_of_less hk, ihr, List.all_cons, hside, Bool.true_and,
                cons_ite]
          | false =>
              have hside : sameSide lt k key x = false := by simp [sameSide, hx, hk]
              rw [way_of_not_less hk, way_of_not_less hk, List.all_cons, hside]
              rfl

theorem way_insertAll (k : α) (xs : List α) : way lt k (insertAll lt xs) = met lt k xs := by
  induction xs using List.reverseRecOn with
  | nil => rfl
  | append_singleton xs x ih =>
      rw [insertAll, List.foldl_append] at *
      rw [List.foldl_cons, List.foldl_nil, way_insert, ih, met, met, List.foldl_append]
      rfl

/-- The bound of a search is the last key on its way that is not less. -/
theorem lowerBound_eq (k : α) (bound : Option α) (t : Tree α) :
    lowerBound lt k bound t = ((way lt k t).filter fun y => !lt y k).getLast?.or bound := by
  induction t generalizing bound with
  | nil => simp [lowerBound, way]
  | node left key right ihl ihr =>
      cases hk : lt key k with
      | true => simp [lowerBound, way, hk, ihr]
      | false =>
          simp only [lowerBound, way, hk, Bool.false_eq_true, if_false, ihl, Bool.not_false,
            List.filter_cons_of_pos]
          cases h : ((way lt k left).filter fun y => !lt y k).getLast? with
          | none =>
              rw [List.getLast?_eq_none_iff] at h
              simp [h]
          | some y => simp [List.getLast?_cons, h]

theorem find_iff (k : α) (t : Tree α) :
    find lt k t = true ↔
      ∃ before p after, way lt k t = before ++ p :: after ∧ Equivalent lt p k ∧
        ∀ y ∈ after, lt y k = true := by
  rw [find, lowerBound_eq, Option.or_none]
  constructor
  · intro hfind
    cases hlast : ((way lt k t).filter fun y => !lt y k).getLast? with
    | none =>
        rw [hlast] at hfind
        cases hfind
    | some p =>
        rw [hlast] at hfind
        obtain ⟨init, hinit⟩ := List.getLast?_eq_some_iff.mp hlast
        obtain ⟨before, rest, hway, hbefore, hrest⟩ := List.filter_eq_append_iff.mp hinit
        obtain ⟨less, after, hcons, hless, hp, hafter⟩ := List.filter_eq_cons_iff.mp hrest
        use before ++ less, p, after
        constructor
        · rw [hway, hcons]
          simp
        · constructor
          · constructor
            · simpa using hp
            · simpa using hfind
          · intro y hy
            simpa using List.filter_eq_nil_iff.mp hafter y hy
  · rintro ⟨before, p, after, hway, hequiv, hafter⟩
    have hnil : (after.filter fun y => !lt y k) = [] := by
      rw [List.filter_eq_nil_iff]
      intro y hy
      simp [hafter y hy]
    rw [hway, List.filter_append, List.filter_cons_of_pos (by simp [hequiv.1]), hnil,
      List.getLast?_append]
    simp [hequiv.2]

end Tree

/-! ### Searching after insertions -/

variable {lt}

theorem find_insertAll_iff (k : α) (xs : List α) :
    (Tree.insertAll lt xs).find lt k = true ↔ Reached lt k xs := by
  rw [Tree.find_iff, Tree.way_insertAll, Reached]

theorem met_sublist (k : α) (xs : List α) : (met lt k xs).Sublist xs := by
  induction xs using List.reverseRecOn with
  | nil => exact List.Sublist.refl _
  | append_singleton xs x ih =>
      rw [met, List.foldl_append, List.foldl_cons, List.foldl_nil]
      split
      · exact ih.append (List.Sublist.refl _)
      · exact ih.trans (List.sublist_append_left _ _)

/-- What is reached was inserted. -/
theorem Reached.exists_equivalent {k : α} {xs : List α} (h : Reached lt k xs) :
    ∃ p ∈ xs, Equivalent lt p k := by
  obtain ⟨before, p, after, hmet, hequiv, _⟩ := h
  use p
  constructor
  · apply (met_sublist k xs).subset
    rw [hmet]
    simp
  · exact hequiv

/-- The search is right exactly when it reaches an equivalent key if there is one. -/
theorem find_right_iff (k : α) (xs : List α) :
    ((Tree.insertAll lt xs).find lt k = true ↔ ∃ p ∈ xs, Equivalent lt p k) ↔
      ((∃ p ∈ xs, Equivalent lt p k) → Reached lt k xs) := by
  rw [find_insertAll_iff]
  constructor
  · intro h hexists
    exact h.mpr hexists
  · intro h
    exact ⟨Reached.exists_equivalent, h⟩

/-! ### Comparators that fail -/

namespace Tree

/-- Insertion with a comparator that may have no result. -/
def insertM (compare : α → α → Option Bool) (x : α) : Tree α → Option (Tree α)
  | nil => some (node nil x nil)
  | node left key right =>
      (compare x key).bind fun less =>
        if less then (insertM compare x left).map fun left => node left key right
        else (insertM compare x right).map fun right => node left key right

def lowerBoundM (compare : α → α → Option Bool) (k : α) (bound : Option α) :
    Tree α → Option (Option α)
  | nil => some bound
  | node left key right =>
      (compare key k).bind fun less =>
        if less then lowerBoundM compare k bound right else lowerBoundM compare k (some key) left

def findM (compare : α → α → Option Bool) (k : α) (t : Tree α) : Option Bool :=
  (lowerBoundM compare k none t).bind fun
    | none => some false
    | some y => (compare k y).map not

def insertAllM (compare : α → α → Option Bool) (xs : List α) : Option (Tree α) :=
  xs.foldlM (fun t x => insertM compare x t) nil

/-- All keys of a tree have a property. -/
def All (ok : α → Prop) : Tree α → Prop
  | nil => True
  | node left key right => ok key ∧ left.All ok ∧ right.All ok

end Tree

/-- A comparator that has a result for the keys with a property, and for no other ones. -/
structure Compares (lt : α → α → Bool) (compare : α → α → Option Bool) (ok : α → Prop) : Prop where
  eq_some : ∀ a b, ok a → ok b → compare a b = some (lt a b)
  eq_none : ∀ a b, ¬(ok a ∧ ok b) → compare a b = none

namespace Compares

variable {compare : α → α → Option Bool} {ok : α → Prop}

theorem all_insert (lt : α → α → Bool) {x : α} (hx : ok x) {t : Tree α} (ht : t.All ok) : (t.insert lt x).All ok := by
  induction t with
  | nil => exact ⟨hx, trivial, trivial⟩
  | node left key right ihl ihr =>
      obtain ⟨hkey, hleft, hright⟩ := ht
      rw [Tree.insert]
      split
      · exact ⟨hkey, ihl hleft, hright⟩
      · exact ⟨hkey, hleft, ihr hright⟩

theorem all_foldl_insert (lt : α → α → Bool) {xs : List α} (hxs : ∀ x ∈ xs, ok x) {t : Tree α} (ht : t.All ok) :
    (xs.foldl (fun t x => Tree.insert lt x t) t).All ok :=
  List.foldlRecOn xs _ ht fun _ ht x hx => all_insert lt (hxs x hx) ht

theorem exists_node_foldl_insert (lt : α → α → Bool) (xs : List α) (left : Tree α) (key : α) (right : Tree α) :
    ∃ left' key' right', xs.foldl (fun t x => Tree.insert lt x t) (Tree.node left key right) =
      Tree.node left' key' right' := by
  induction xs generalizing left key right with
  | nil => exact ⟨left, key, right, rfl⟩
  | cons x xs ih =>
      rw [List.foldl_cons, Tree.insert]
      split
      · exact ih _ _ _
      · exact ih _ _ _

theorem insertM_eq (h : Compares lt compare ok) {x : α} (hx : ok x) {t : Tree α}
    (ht : t.All ok) : t.insertM compare x = some (t.insert lt x) := by
  induction t with
  | nil => rfl
  | node left key right ihl ihr =>
      obtain ⟨hkey, hleft, hright⟩ := ht
      rw [Tree.insertM, h.eq_some x key hx hkey, Tree.insert, ihl hleft, ihr hright]
      cases lt x key <;> rfl

theorem findM_eq (h : Compares lt compare ok) {k : α} (hk : ok k) {t : Tree α} (ht : t.All ok) :
    t.findM compare k = some (t.find lt k) := by
  have hbound (bound : Option α) (hok : ∀ y ∈ bound, ok y) :
      t.lowerBoundM compare k bound = some (t.lowerBound lt k bound) ∧
        ∀ y ∈ t.lowerBound lt k bound, ok y := by
    induction t generalizing bound with
    | nil => exact ⟨rfl, hok⟩
    | node left key right ihl ihr =>
        obtain ⟨hkey, hleft, hright⟩ := ht
        rw [Tree.lowerBoundM, h.eq_some key k hkey hk, Tree.lowerBound]
        cases lt key k with
        | true => exact ihr hright bound hok
        | false => exact ihl hleft (some key) fun y hy => Option.some.inj hy ▸ hkey
  obtain ⟨heq, hfound⟩ := hbound none nofun
  rw [Tree.findM, heq, Tree.find]
  cases hlast : t.lowerBound lt k none with
  | none => rfl
  | some y => simp [h.eq_some k y hk (hfound y hlast)]

/-- The first comparison is with the root. -/
theorem insertM_root (h : Compares lt compare ok) {x key : α} (hnot : ¬(ok x ∧ ok key))
    (left right : Tree α) : (Tree.node left key right).insertM compare x = none := by
  rw [Tree.insertM, h.eq_none x key hnot]
  rfl

theorem findM_root (h : Compares lt compare ok) {k key : α} (hnot : ¬(ok k ∧ ok key))
    (left right : Tree α) : (Tree.node left key right).findM compare k = none := by
  rw [Tree.findM, Tree.lowerBoundM, h.eq_none key k (mt And.symm hnot)]
  rfl

/-- More keys go into a tree whose keys have the property, up to one that has not. -/
theorem foldlM_insertM (h : Compares lt compare ok) (xs : List α) {left right : Tree α} {key : α}
    (ht : (Tree.node left key right).All ok) :
    (∀ x ∈ xs, ok x) ∧ xs.foldlM (fun t x => Tree.insertM compare x t) (Tree.node left key right) =
        some (xs.foldl (fun t x => Tree.insert lt x t) (Tree.node left key right)) ∨
      (¬∀ x ∈ xs, ok x) ∧
        xs.foldlM (fun t x => Tree.insertM compare x t) (Tree.node left key right) = none := by
  induction xs generalizing left right with
  | nil => exact .inl ⟨nofun, rfl⟩
  | cons x xs ih =>
      rw [List.foldlM_cons, List.foldl_cons, List.forall_mem_cons]
      by_cases hx : ok x
      · rw [h.insertM_eq hx ht, and_iff_right hx]
        change _ ∧ xs.foldlM (fun t x => Tree.insertM compare x t) _ = _ ∨
          _ ∧ xs.foldlM (fun t x => Tree.insertM compare x t) _ = _
        have hnext : (Tree.node left key right).insert lt x =
            if lt x key then Tree.node (left.insert lt x) key right
            else Tree.node left key (right.insert lt x) := rfl
        have hall := all_insert lt hx ht
        rw [hnext] at hall ⊢
        cases hless : lt x key with
        | true => exact ih (by simpa [hless] using hall)
        | false => exact ih (by simpa [hless] using hall)
      · rw [h.insertM_root fun hok => hx hok.1]
        exact .inr ⟨fun hok => hx hok.1, rfl⟩

theorem foldlM_insertM_root (h : Compares lt compare ok) {key : α} (hkey : ¬ok key) (k : α)
    (xs : List α) : (xs.foldlM (fun t x => Tree.insertM compare x t)
      (Tree.node .nil key .nil)).bind (fun t => Tree.findM compare k t) = none := by
  cases xs with
  | nil => exact h.findM_root (fun hok => hkey hok.2) .nil .nil
  | cons x xs =>
      rw [List.foldlM_cons, h.insertM_root fun hok => hkey hok.2]
      rfl

/-- The search after some insertions has a result if there is nothing to compare, or all keys
can be compared. -/
theorem search_eq (h : Compares lt compare ok) (k : α) (xs : List α) :
    (xs = [] ∨ ok k ∧ ∀ x ∈ xs, ok x) ∧ (Tree.insertAllM compare xs).bind
        (fun t => Tree.findM compare k t) = some ((Tree.insertAll lt xs).find lt k) ∨
      ¬(xs = [] ∨ ok k ∧ ∀ x ∈ xs, ok x) ∧
        (Tree.insertAllM compare xs).bind (fun t => Tree.findM compare k t) = none := by
  cases xs with
  | nil => exact .inl ⟨.inl rfl, rfl⟩
  | cons x xs =>
      rw [or_iff_right (List.cons_ne_nil x xs), List.forall_mem_cons]
      by_cases hx : ok x
      · have ht : (Tree.node .nil x .nil).All ok := ⟨hx, trivial, trivial⟩
        rw [and_iff_right hx]
        rcases h.foldlM_insertM xs ht with ⟨hall, heq⟩ | ⟨hnot, heq⟩
        · have htree : Tree.insertAllM compare (x :: xs) = some (Tree.insertAll lt (x :: xs)) := heq
          have hkeys := all_foldl_insert lt hall ht
          rw [htree, Option.bind_some]
          by_cases hk : ok k
          · exact .inl ⟨⟨hk, hall⟩, h.findM_eq hk hkeys⟩
          · refine .inr ⟨fun hok => hk hok.1, ?_⟩
            obtain ⟨left, key, right, hnode⟩ := exists_node_foldl_insert lt xs .nil x .nil
            have hinserted : Tree.insertAll lt (x :: xs) = Tree.node left key right := hnode
            rw [hinserted]
            exact h.findM_root (fun hok => hk hok.1) left right
        · have htree : Tree.insertAllM compare (x :: xs) = none := heq
          exact .inr ⟨fun hok => hnot hok.2, by rw [htree]; rfl⟩
      · exact .inr ⟨fun hok => hx hok.2.1, h.foldlM_insertM_root hx k xs⟩

end Compares

end Osquery.Foundation.SearchTree
