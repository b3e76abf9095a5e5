import Osquery.Foundation.Numeral
import Mathlib.Data.List.DropRight

/-!
# Lists written as separated text

Joining a list with a separator and splitting it again, as
`boost::algorithm::join`, `boost::split` and `boost::algorithm::trim` do, and
the texts that lie between two texts with a common beginning.
-/

namespace Osquery.Foundation.Separated

open Numeral

/-- `boost::split` at any of the given characters. Adjacent separators give
empty pieces, and the empty text is one empty piece. -/
def splitAnyOf (s delims : String) : List String :=
  (s.toList.splitOnP fun c => delims.toList.contains c).map String.ofList

/-- `boost::algorithm::trim`: drop white space at both ends. -/
def trim (s : String) : String :=
  String.ofList ((s.toList.dropWhile isSpace).reverse.dropWhile isSpace).reverse

/-- `boost::algorithm::join`. -/
def join (xs : List String) (sep : String) : String := sep.intercalate xs

/-- What follows the first occurrence of a character, or the whole text. -/
def afterFirst (s : String) (c : Char) : String :=
  match s.toList.dropWhile (· ≠ c) with
  | [] => s
  | _ :: rest => String.ofList rest

/-- What follows the last occurrence of a character, or the whole text. -/
def afterLast (s : String) (c : Char) : String :=
  String.ofList (s.toList.reverse.takeWhile (· ≠ c)).reverse

@[simp] theorem join_nil (sep : String) : join [] sep = "" := by simp [join]

/-- Splitting a joined non-empty list at its separator returns the list. -/
theorem splitAnyOf_join {xs : List String} {sep : String} {c : Char} (hsep : sep.toList = [c])
    (hne : xs ≠ []) (hc : ∀ x ∈ xs, c ∉ x.toList) :
    splitAnyOf (join xs sep) sep = xs := by
  have hp : (fun d => sep.toList.contains d) = (fun d => d == c) := by
    funext d
    rw [hsep, List.contains_cons, List.contains_nil, Bool.or_false]
  have hjoin : (join xs sep).toList = [c].intercalate (xs.map String.toList) := by
    simp [join, hsep]
  have hsplit : ([c].intercalate (xs.map String.toList)).splitOn c = xs.map String.toList := by
    apply List.splitOn_intercalate
    · intro l hl
      obtain ⟨x, hx, rfl⟩ := List.mem_map.mp hl
      exact hc x hx
    · simpa using hne
  rw [splitAnyOf, hp, hjoin, ← List.splitOn_eq_splitOnP, hsplit]
  simp [List.map_map, Function.comp_def]

/-- Joining the pieces at a separator of one character gives the text back. -/
theorem join_splitAnyOf {sep : String} {c : Char} (hsep : sep.toList = [c]) (s : String) :
    join (splitAnyOf s sep) sep = s := by
  have hp : (fun d => sep.toList.contains d) = (fun d => d == c) := by
    funext d
    rw [hsep, List.contains_cons, List.contains_nil, Bool.or_false]
  apply String.toList_inj.mp
  rw [splitAnyOf, hp, ← List.splitOn_eq_splitOnP]
  have hpieces : ((s.toList.splitOn c).map String.ofList).map String.toList =
      s.toList.splitOn c := by
    simp [List.map_map, Function.comp_def]
  rw [join, String.toList_intercalate, hsep, hpieces, List.intercalate_splitOn]

/-- The pieces of two texts with a separator between them. -/
theorem splitAnyOf_append {x y sep : String} {c : Char} (hsep : sep.toList = [c]) :
    splitAnyOf (x ++ sep ++ y) sep = splitAnyOf x sep ++ splitAnyOf y sep := by
  have hc : sep.toList.contains c = true := by simp [hsep]
  have htext : (x ++ sep ++ y).toList = x.toList ++ c :: y.toList := by simp [hsep]
  rw [splitAnyOf, htext, List.splitOnP_append_cons _ _ hc, List.map_append]
  rfl

theorem splitAnyOf_eq_singleton {x sep : String} (h : ∀ c ∈ sep.toList, c ∉ x.toList) :
    splitAnyOf x sep = [x] := by
  rw [splitAnyOf, List.splitOnP_eq_singleton]
  · simp
  · intro c hc
    simpa using fun hs => h c hs hc

private theorem forall_mem_splitOnP {α : Type} {q : α → Bool} (l : List α) :
    ∀ piece ∈ l.splitOnP q, ∀ x ∈ piece, q x = false := by
  induction l with
  | nil => simp
  | cons y rest ih =>
      rw [List.splitOnP_cons_eq_if_modifyHead]
      split
      · intro piece hpiece
        rcases List.mem_cons.mp hpiece with rfl | hpiece
        · simp
        · exact ih piece hpiece
      · rename_i hy
        cases hs : rest.splitOnP q with
        | nil => simp
        | cons first others =>
            rw [hs] at ih
            intro piece hpiece x hx
            rcases List.mem_cons.mp hpiece with rfl | hpiece
            · rcases List.mem_cons.mp hx with rfl | hx
              · simpa using hy
              · exact ih first List.mem_cons_self x hx
            · exact ih piece (List.mem_cons_of_mem _ hpiece) x hx

/-- A piece has no separator. -/
theorem not_mem_of_mem_splitAnyOf {s delims piece : String} (h : piece ∈ splitAnyOf s delims)
    {c : Char} (hc : c ∈ delims.toList) : c ∉ piece.toList := by
  obtain ⟨l, hl, rfl⟩ := List.mem_map.mp h
  intro hmem
  have hsep := forall_mem_splitOnP s.toList l hl c (by simpa using hmem)
  simp [hc] at hsep

theorem toList_join_cons_cons (x y : String) (ys : List String) (sep : String) :
    (join (x :: y :: ys) sep).toList = x.toList ++ (sep.toList ++ (join (y :: ys) sep).toList) := by
  simp [join]

theorem join_eq_empty_iff {xs : List String} {sep : String} (hne : ∀ x ∈ xs, x ≠ "") :
    join xs sep = "" ↔ xs = [] := by
  cases xs with
  | nil => simp
  | cons x rest =>
      have hx : x ≠ "" := hne x (by simp)
      cases rest with
      | nil => simpa [join] using hx
      | cons y ys =>
          have h : join (x :: y :: ys) sep ≠ "" := by
            intro h
            have hl := congrArg String.toList h
            simp [join, hx] at hl
          simp [h]

/-- Appending one more piece to a joined non-empty list. -/
theorem join_concat {xs : List String} (hne : xs ≠ []) (x sep : String) :
    join (xs ++ [x]) sep = join xs sep ++ sep ++ x := by
  apply String.ext
  induction xs with
  | nil => exact absurd rfl hne
  | cons y ys ih =>
      cases ys with
      | nil => simp [join]
      | cons z zs =>
          have h := ih (by simp)
          simp only [join, List.cons_append, String.toList_intercalate, List.map_cons,
            List.intercalate_cons_cons, String.toList_append, List.append_assoc] at h ⊢
          rw [h]

/-- The pieces of a text; the empty text has none. -/
def pieces (s delims : String) : List String := if s = "" then [] else splitAnyOf s delims

@[simp] theorem pieces_empty (delims : String) : pieces "" delims = [] := if_pos rfl

/-- One more piece is appended to a text. -/
theorem pieces_concat {x y sep : String} {c : Char} (hsep : sep.toList = [c]) (hy : y ≠ "")
    (hc : c ∉ y.toList) :
    pieces (if x = "" then y else x ++ sep ++ y) sep = pieces x sep ++ [y] := by
  have hone : splitAnyOf y sep = [y] := by
    apply splitAnyOf_eq_singleton
    intro d hd
    rw [hsep, List.mem_singleton] at hd
    exact hd ▸ hc
  by_cases hx : x = ""
  · rw [if_pos hx, hx, pieces_empty, pieces, if_neg hy, hone]
    rfl
  · have hne : x ++ sep ++ y ≠ "" := by
      intro h
      have hl := congrArg String.toList h
      simp [hx] at hl
    rw [if_neg hx, pieces, if_neg hne, splitAnyOf_append hsep, hone, pieces, if_neg hx]

/-- The pieces of a joined list that has a piece other than the empty text. -/
theorem mem_pieces_join {xs : List String} {sep x : String} {c : Char} (hsep : sep.toList = [c])
    (hc : ∀ x ∈ xs, c ∉ x.toList) (hx : x ∈ xs) (hne : x ≠ "") : x ∈ pieces (join xs sep) sep := by
  have hsplit := splitAnyOf_join hsep (List.ne_nil_of_mem hx) hc
  have hjoin : join xs sep ≠ "" := by
    intro h
    rw [h, splitAnyOf_eq_singleton (x := "") (by simp)] at hsplit
    rw [← hsplit, List.mem_singleton] at hx
    exact hne hx
  rw [pieces, if_neg hjoin, hsplit]
  exact hx

/-- A text without white space is its own trimmed form. -/
theorem trim_of_no_space {s : String} (h : ∀ c ∈ s.toList, isSpace c = false) : trim s = s := by
  have hdrop : ∀ l : List Char, (∀ c ∈ l, isSpace c = false) → l.dropWhile isSpace = l := by
    intro l hl
    cases l with
    | nil => rfl
    | cons c cs => simp [hl c (by simp)]
  have h' : ∀ c ∈ s.toList.reverse, isSpace c = false := by
    intro c hc
    exact h c (List.mem_reverse.mp hc)
  rw [trim, hdrop _ h, hdrop _ h']
  simp

/-- Trimming keeps some of the characters. -/
theorem mem_of_mem_trim {s : String} {c : Char} (h : c ∈ (trim s).toList) : c ∈ s.toList := by
  rw [trim, String.toList_ofList, List.mem_reverse] at h
  have hmem := List.mem_reverse.mp ((List.dropWhile_suffix _).subset h)
  exact (List.dropWhile_suffix _).subset hmem

/-- What is left after trimming stays when it is trimmed again. -/
theorem trim_trim (s : String) : trim (trim s) = trim s := by
  have htrim : ∀ s : String, (trim s).toList =
      (s.toList.dropWhile isSpace).rdropWhile isSpace := fun s => String.toList_ofList
  apply String.toList_inj.mp
  rw [htrim, htrim]
  have hhead : ((s.toList.dropWhile isSpace).rdropWhile isSpace).dropWhile isSpace =
      (s.toList.dropWhile isSpace).rdropWhile isSpace := by
    rw [List.dropWhile_eq_self_iff]
    intro hlen
    have hinit := List.rdropWhile_prefix isSpace (s.toList.dropWhile isSpace)
    rw [hinit.getElem hlen]
    exact List.dropWhile_eq_self_iff.mp (List.dropWhile_idempotent isSpace s.toList) _
  rw [hhead, List.rdropWhile_idempotent]

private theorem isPrefix_of_not_lex {P low high k : List Char} (hl : P <+: low) (hh : P <+: high)
    (h₁ : ¬ List.Lex (· < ·) k low) (h₂ : ¬ List.Lex (· < ·) high k) : P <+: k := by
  induction P generalizing low high k with
  | nil => simp
  | cons c P ih =>
      obtain ⟨low', rfl⟩ : ∃ l, low = c :: l := by
        obtain ⟨t, rfl⟩ := hl
        exact ⟨_, rfl⟩
      obtain ⟨high', rfl⟩ : ∃ l, high = c :: l := by
        obtain ⟨t, rfl⟩ := hh
        exact ⟨_, rfl⟩
      cases k with
      | nil => exact absurd List.Lex.nil h₁
      | cons d k' =>
          have hcd : c = d := by
            rcases lt_trichotomy c d with h | h | h
            · exact absurd (List.Lex.rel h) h₂
            · exact h
            · exact absurd (List.Lex.rel h) h₁
          subst d
          rw [List.cons_prefix_cons] at hl hh ⊢
          exact ⟨rfl, ih hl.2 hh.2 (fun h => h₁ (List.Lex.cons h))
            (fun h => h₂ (List.Lex.cons h))⟩

/-- A text between two texts with a common beginning has that beginning. -/
theorem isPrefix_of_between {P low high k : String} (hl : P.toList <+: low.toList)
    (hh : P.toList <+: high.toList) (h₁ : low ≤ k) (h₂ : k ≤ high) : P.toList <+: k.toList := by
  apply isPrefix_of_not_lex hl hh
  · intro h
    exact absurd h₁ (not_le_of_gt (String.lt_iff.mpr h))
  · intro h
    exact absurd h₂ (not_le_of_gt (String.lt_iff.mpr h))

/-- The empty text comes first. -/
theorem eq_empty_of_le {s : String} (h : s ≤ "") : s = "" := by
  by_contra hne
  have hlt : "" < s := by
    obtain ⟨c, rest, hs⟩ := List.exists_cons_of_ne_nil (String.toList_eq_nil_iff.not.mpr hne)
    rw [String.lt_iff, hs]
    exact List.Lex.nil
  exact absurd h (not_le_of_gt hlt)

/-- The part before the first occurrence of a character is the same in equal lists. -/
theorem append_cons_inj {α : Type*} {c : α} {a b x y : List α} (ha : c ∉ a) (hb : c ∉ b)
    (h : a ++ c :: x = b ++ c :: y) : a = b ∧ x = y := by
  induction a generalizing b with
  | nil =>
      cases b with
      | nil => exact ⟨rfl, (List.cons.inj h).2⟩
      | cons d rest => exact absurd ((List.cons.inj h).1 ▸ List.mem_cons_self) hb
  | cons e a' ih =>
      cases b with
      | nil => exact absurd ((List.cons.inj h).1 ▸ List.mem_cons_self) ha
      | cons d b' =>
          obtain ⟨hhead, htail⟩ := List.cons.inj h
          obtain ⟨hab, hxy⟩ := ih (fun hm => ha (List.mem_cons_of_mem _ hm))
            (fun hm => hb (List.mem_cons_of_mem _ hm)) htail
          exact ⟨congrArg₂ _ hhead hab, hxy⟩

/-- The part after the last occurrence of a character is the same in equal lists. -/
theorem append_cons_inj_last {α : Type*} {c : α} {a b x y : List α} (hx : c ∉ x) (hy : c ∉ y)
    (h : a ++ c :: x = b ++ c :: y) : a = b ∧ x = y := by
  have hreverse := congrArg List.reverse h
  simp only [List.reverse_append, List.reverse_cons, List.append_assoc, List.singleton_append]
    at hreverse
  obtain ⟨hxy, hab⟩ := append_cons_inj (fun hm => hx (List.mem_reverse.mp hm))
    (fun hm => hy (List.mem_reverse.mp hm)) hreverse
  exact ⟨List.reverse_inj.mp hab, List.reverse_inj.mp hxy⟩

/-- A text ends where another begins whose first character it does not have. -/
theorem append_text_inj {c : Char} {a b t u x y : String} (ha : c ∉ a.toList) (hb : c ∉ b.toList)
    (ht : t.toList.head? = some c) (hu : u.toList.head? = some c)
    (h : a ++ (t ++ x) = b ++ (u ++ y)) : a = b ∧ t ++ x = u ++ y := by
  obtain ⟨t', ht'⟩ := List.head?_eq_some_iff.mp ht
  obtain ⟨u', hu'⟩ := List.head?_eq_some_iff.mp hu
  have hl : a.toList ++ c :: (t' ++ x.toList) = b.toList ++ c :: (u' ++ y.toList) := by
    have hl := congrArg String.toList h
    rwa [String.toList_append, String.toList_append, String.toList_append, String.toList_append,
      ht', hu'] at hl
  obtain ⟨hab, hxy⟩ := append_cons_inj ha hb hl
  obtain rfl := String.toList_inj.mp hab
  exact ⟨rfl, (String.append_right_inj a).mp h⟩

/-- What follows a beginning. -/
theorem ofList_drop_append (p s : String) : String.ofList ((p ++ s).toList.drop p.length) = s := by
  rw [String.toList_append, ← String.length_toList, List.drop_left, String.ofList_toList]

/-- A text with a beginning is the beginning and what follows it. -/
theorem append_ofList_drop {p s : String} (h : p.toList <+: s.toList) :
    p ++ String.ofList (s.toList.drop p.length) = s := by
  obtain ⟨rest, hrest⟩ := h
  apply String.toList_inj.mp
  rw [String.toList_append, String.toList_ofList, ← hrest, ← String.length_toList, List.drop_left]

end Osquery.Foundation.Separated
