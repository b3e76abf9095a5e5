import Osquery.Foundation.DecimalText
import Osquery.Tables.VirtualTable

/-!
# Matching a value with constraints

A constraint list compares the text of a value with the texts of its constraints in the type of
its column. Both sides are converted first, and a literal that cannot be converted matches
nothing. An operator that is not compared ends the loop with a match.

## Implementation notes

Whether a value satisfies an operator that is not compared is a parameter, and so is what a
column that is no text and no integer compares. An `int64_t` is a `long`, of 64 bits.
-/

namespace Osquery.Tables

open Foundation.Numeral Foundation.DecimalText

/-- The integer types that literals are converted to. -/
inductive IntegerLiteral
  | int
  | int64
  | uint64
  deriving DecidableEq

/-- `tryTo`, from a text to one of the integer types. -/
def IntegerLiteral.tryTo : IntegerLiteral → String → Option ℤ
  | .int, s => (stoi s).toOption
  | .int64, s => (stoll s).toOption
  | .uint64, s => (stoull s).toOption.map fun n => (n.toNat : ℤ)

def IntegerLiteral.InRange : IntegerLiteral → ℤ → Prop
  | .int, n => -2 ^ 31 ≤ n ∧ n < 2 ^ 31
  | .int64, n => -2 ^ 63 ≤ n ∧ n < 2 ^ 63
  | .uint64, n => 0 ≤ n ∧ n < 2 ^ 64

/-- The comparison with an operator, when the operator is supported. -/
def compareLiteral {T : Type} [LinearOrder T] (op : ℕ) (base_expr literal : T) : Option Bool :=
  if op = EQUALS then some (base_expr = literal)
  else if op = GREATER_THAN then some (base_expr > literal)
  else if op = LESS_THAN then some (base_expr < literal)
  else if op = GREATER_THAN_OR_EQUALS then some (base_expr ≥ literal)
  else if op = LESS_THAN_OR_EQUALS then some (base_expr ≤ literal)
  else none

/-- The loop over the constraints, with a conversion to the type of the column. -/
def literalMatches {T : Type} [LinearOrder T] (tryTo : String → Option T) (base_expr : T) :
    List Constraint → Bool
  | [] => true
  | constraint :: constraints =>
      match tryTo constraint.expr with
      | none => false
      | some literal =>
          match compareLiteral constraint.op base_expr literal with
          | none => true
          | some aggregate => aggregate && literalMatches tryTo base_expr constraints

/-- `ConstraintList::matches`. -/
def ConstraintList.matchesExpr (list : ConstraintList) (expr : String) : Bool :=
  match list.affinity with
  | .text => literalMatches some expr list.constraints
  | .integer =>
      match IntegerLiteral.int.tryTo expr with
      | some lexpr => literalMatches IntegerLiteral.int.tryTo lexpr list.constraints
      | none => false
  | .bigint =>
      match IntegerLiteral.int64.tryTo expr with
      | some lexpr => literalMatches IntegerLiteral.int64.tryTo lexpr list.constraints
      | none => false
  | .unsignedBigint =>
      match IntegerLiteral.uint64.tryTo expr with
      | some lexpr => literalMatches IntegerLiteral.uint64.tryTo lexpr list.constraints
      | none => false
  | _ => false

/-! ### Satisfied constraints -/

/-- The integer type of a column. -/
def ColumnType.integerLiteral : ColumnType → Option IntegerLiteral
  | .integer => some .int
  | .bigint => some .int64
  | .unsignedBigint => some .uint64
  | _ => none

/-- A text is a value of the type of a column. -/
def IsValue (type : ColumnType) (value : String) : Prop :=
  ∀ T ∈ type.integerLiteral, ∃ v ∈ decimal value, T.InRange v

/-- An operator that is compared, in any type. -/
def supported (op : ℕ) : Bool := (compareLiteral op (0 : ℤ) 0).isSome

/-- A value compares with a constraint as the type of its column compares. -/
def Compares (other : Constraint → String → Prop) (value : String) (c : Constraint) :
    ColumnType → Prop
  | .text => compareLiteral c.op value c.expr = some true
  | .integer | .bigint | .unsignedBigint =>
      ∃ v ∈ decimal value, ∃ n ∈ decimal c.expr, compareLiteral c.op v n = some true
  | _ => other c value

/-- A value satisfies a constraint under the comparison of the type of its column. -/
def Satisfies (other : Constraint → String → Prop) (type : ColumnType) (value : String)
    (c : Constraint) : Prop :=
  if supported c.op then Compares other value c type else other c value

/-- The constraints up to the first one with an operator that is not compared. -/
def reached : List Constraint → List Constraint
  | [] => []
  | c :: cs => if supported c.op then c :: reached cs else [c]

/-- The literals that are reached can be converted, a negative one of an unsigned column to a
number with which the comparison holds too. -/
def LiteralsConvert (T : IntegerLiteral) (value : String) (constraints : List Constraint) : Prop :=
  ∀ c ∈ reached constraints, (T.tryTo c.expr).isSome ∧
    (T = .uint64 → ∀ v ∈ decimal value, ∀ n ∈ decimal c.expr, n < 0 →
      compareLiteral c.op v (n + 2 ^ 64) ≠ some false)

/-- When a value that satisfies all constraints is matched. -/
def MatchedWhen (list : ConstraintList) (value : String) : Prop :=
  match list.affinity with
  | .text => True
  | .integer => LiteralsConvert .int value list.constraints
  | .bigint => LiteralsConvert .int64 value list.constraints
  | .unsignedBigint => LiteralsConvert .uint64 value list.constraints
  | _ => False

/-! ### Comparisons -/

theorem isSome_compareLiteral {T : Type} [LinearOrder T] (op : ℕ) (a b : T) :
    (compareLiteral op a b).isSome = supported op := by
  rw [supported, compareLiteral, compareLiteral]
  repeat' split
  all_goals rfl

theorem compareLiteral_of_unsupported {T : Type} [LinearOrder T] {op : ℕ}
    (h : supported op = false) (a b : T) : compareLiteral op a b = none := by
  rw [← isSome_compareLiteral op a b] at h
  exact Option.isSome_eq_false_iff.mp h |> Option.isNone_iff_eq_none.mp

theorem mem_of_mem_reached {c : Constraint} {constraints : List Constraint}
    (h : c ∈ reached constraints) : c ∈ constraints := by
  induction constraints with
  | nil => exact h
  | cons c' constraints ih =>
      rw [reached] at h
      split at h
      · rcases List.mem_cons.mp h with rfl | hrest
        · exact List.mem_cons_self
        · exact List.mem_cons_of_mem _ (ih hrest)
      · rw [List.mem_singleton.mp h]
        exact List.mem_cons_self

/-- The loop finds a match exactly when every literal that it reaches is converted and compares. -/
theorem literalMatches_iff {T : Type} [LinearOrder T] (tryTo : String → Option T) (base_expr : T)
    (constraints : List Constraint) :
    literalMatches tryTo base_expr constraints = true ↔
      ∀ c ∈ reached constraints, ∃ literal, tryTo c.expr = some literal ∧
        compareLiteral c.op base_expr literal ≠ some false := by
  induction constraints with
  | nil => simp [literalMatches, reached]
  | cons c constraints ih =>
      have hfirst : c ∈ reached (c :: constraints) := by
        rw [reached]
        split <;> exact List.mem_cons_self
      rw [literalMatches]
      cases hliteral : tryTo c.expr with
      | none =>
          refine iff_of_false Bool.noConfusion fun h => ?_
          obtain ⟨literal, hsome, -⟩ := h c hfirst
          rw [hliteral] at hsome
          exact absurd hsome (by simp)
      | some literal =>
          have hsome := isSome_compareLiteral c.op base_expr literal
          rw [reached, ← hsome]
          cases hcompare : compareLiteral c.op base_expr literal with
          | none => simp [hliteral, hcompare]
          | some aggregate => simp [hliteral, hcompare, ih]

/-- A literal that denotes an integer is read as it, or not at all, or as its complement. -/
theorem tryTo_of_decimal {T : IntegerLiteral} {s : String} {n : ℤ} (h : decimal s = some n) :
    (T.tryTo s = some n ∧ (T = .uint64 → 0 ≤ n)) ∨ T.tryTo s = none ∨
      (T = .uint64 ∧ n < 0 ∧ T.tryTo s = some (n + 2 ^ 64)) := by
  cases T with
  | int =>
      rw [IntegerLiteral.tryTo, stoi_of_decimal h]
      split
      · exact Or.inl ⟨rfl, fun hT => by cases hT⟩
      · exact Or.inr (Or.inl rfl)
  | int64 =>
      rw [IntegerLiteral.tryTo, stoll_of_decimal h]
      split
      · exact Or.inl ⟨rfl, fun hT => by cases hT⟩
      · exact Or.inr (Or.inl rfl)
  | uint64 =>
      rw [IntegerLiteral.tryTo, stoull_of_decimal h]
      split
      · split
        · next hneg => exact Or.inr (Or.inr ⟨rfl, hneg, rfl⟩)
        · next hneg => exact Or.inl ⟨rfl, fun _ => Int.not_lt.mp hneg⟩
      · exact Or.inr (Or.inl rfl)

theorem tryTo_of_inRange {T : IntegerLiteral} {s : String} {n : ℤ} (h : decimal s = some n)
    (hrange : T.InRange n) : T.tryTo s = some n := by
  cases T with
  | int =>
      obtain ⟨hlow, hhigh⟩ := hrange
      rw [IntegerLiteral.tryTo, stoi_of_decimal h, if_pos ⟨hlow, hhigh⟩]
  | int64 =>
      obtain ⟨hlow, hhigh⟩ := hrange
      rw [IntegerLiteral.tryTo, stoll_of_decimal h, if_pos ⟨hlow, hhigh⟩]
  | uint64 =>
      obtain ⟨hlow, hhigh⟩ := hrange
      rw [IntegerLiteral.tryTo, stoull_of_decimal h, if_pos (by omega), if_neg (by omega)]

/-! ### Lists of constraints -/

variable {other : Constraint → String → Prop} {type : ColumnType} {value : String}

theorem compares_integer {T : IntegerLiteral} (htype : type.integerLiteral = some T)
    {c : Constraint} (h : Compares other value c type) :
    ∃ v ∈ decimal value, ∃ n ∈ decimal c.expr, compareLiteral c.op v n = some true := by
  cases type with
  | integer => exact h
  | bigint => exact h
  | unsignedBigint => exact h
  | unknown => cases htype
  | text => cases htype
  | double => cases htype
  | blob => cases htype

/-- A literal of a satisfied constraint compares as it was converted. -/
theorem literal_iff {T : IntegerLiteral} (htype : type.integerLiteral = some T) {v : ℤ}
    (hv : decimal value = some v) {c : Constraint} (h : Satisfies other type value c) :
    (∃ literal, T.tryTo c.expr = some literal ∧ compareLiteral c.op v literal ≠ some false) ↔
      (T.tryTo c.expr).isSome ∧ (T = .uint64 → ∀ v ∈ decimal value, ∀ n ∈ decimal c.expr, n < 0 →
        compareLiteral c.op v (n + 2 ^ 64) ≠ some false) := by
  cases hsupported : supported c.op with
  | false =>
      simp [compareLiteral_of_unsupported hsupported, Option.isSome_iff_exists]
  | true =>
      rw [Satisfies, if_pos hsupported] at h
      obtain ⟨v', hv', n, hn, hcompare⟩ := compares_integer htype h
      obtain rfl : v = v' := Option.some.inj (hv.symm.trans hv')
      rw [Option.mem_def] at hn
      simp only [hv, hn, Option.mem_some_iff, forall_eq']
      rcases tryTo_of_decimal (T := T) hn with ⟨hread, hnonneg⟩ | hread | ⟨hT, hneg, hread⟩
      · refine iff_of_true ⟨n, hread, ?_⟩ ⟨by rw [hread]; rfl, fun hT hneg => ?_⟩
        · rw [hcompare]
          simp
        · exact absurd (hnonneg hT) (Int.not_le.mpr hneg)
      · simp [hread]
      · subst hT
        simp [hread, hneg]

theorem integer_matches_iff {T : IntegerLiteral} (htype : type.integerLiteral = some T)
    (hvalue : IsValue type value) {constraints : List Constraint}
    (h : ∀ c ∈ constraints, Satisfies other type value c) :
    (match T.tryTo value with
      | some lexpr => literalMatches T.tryTo lexpr constraints
      | none => false) = true ↔ LiteralsConvert T value constraints := by
  obtain ⟨v, hv, hrange⟩ := hvalue T htype
  rw [tryTo_of_inRange hv hrange]
  simp only
  rw [literalMatches_iff, LiteralsConvert]
  apply forall_congr'
  intro c
  apply forall_congr'
  intro hc
  exact literal_iff htype hv (h c (mem_of_mem_reached hc))

theorem text_matches {constraints : List Constraint}
    (h : ∀ c ∈ constraints, Satisfies other .text value c) :
    literalMatches some value constraints = true := by
  rw [literalMatches_iff]
  intro c hc
  refine ⟨c.expr, rfl, ?_⟩
  cases hsupported : supported c.op with
  | false => simp [compareLiteral_of_unsupported hsupported]
  | true =>
      have hcompare := h c (mem_of_mem_reached hc)
      rw [Satisfies, if_pos hsupported, Compares] at hcompare
      rw [hcompare]
      simp

/-- A value of the type that satisfies all constraints of a list is matched in a text column, in
an integer column when the literals convert, and in no other column. -/
theorem matchesExpr_iff (other : Constraint → String → Prop) (list : ConstraintList)
    {value : String} (hvalue : IsValue list.affinity value)
    (h : ∀ c ∈ list.constraints, Satisfies other list.affinity value c) :
    list.matchesExpr value = true ↔ MatchedWhen list value := by
  obtain ⟨affinity, constraints⟩ := list
  rw [ConstraintList.matchesExpr, MatchedWhen]
  cases affinity with
  | text => exact iff_of_true (text_matches h) trivial
  | integer => exact integer_matches_iff rfl hvalue h
  | bigint => exact integer_matches_iff rfl hvalue h
  | unsignedBigint => exact integer_matches_iff rfl hvalue h
  | unknown => simp
  | double => simp
  | blob => simp

/-- A constraint that a value of an integer column satisfies. -/
theorem satisfies_of_compare {T : IntegerLiteral} (htype : type.integerLiteral = some T)
    {v n : ℤ} {c : Constraint} (hv : decimal value = some v) (hn : decimal c.expr = some n)
    (h : compareLiteral c.op v n = some true) : Satisfies other type value c := by
  have hcompares : Compares other value c type := by
    cases type with
    | integer => exact ⟨v, hv, n, hn, h⟩
    | bigint => exact ⟨v, hv, n, hn, h⟩
    | unsignedBigint => exact ⟨v, hv, n, hn, h⟩
    | unknown => cases htype
    | text => cases htype
    | double => cases htype
    | blob => cases htype
  have hsupported : supported c.op = true := by
    rw [← isSome_compareLiteral c.op v n, h]
    rfl
  rw [Satisfies, if_pos hsupported]
  exact hcompares

theorem isValue_of_decimal {T : IntegerLiteral} (htype : type.integerLiteral = some T) {v : ℤ}
    (hv : decimal value = some v) (hrange : T.InRange v) : IsValue type value := by
  intro T' hT'
  obtain rfl : T = T' := Option.some.inj (htype.symm.trans hT')
  exact ⟨v, hv, hrange⟩

theorem matchesExpr_iff_greaterThanFive :
    IsValue .bigint "7" ∧
    (∀ c ∈ [(⟨GREATER_THAN, "5"⟩ : Constraint)], Satisfies (fun _ _ => True) .bigint "7" c) ∧
    ((ConstraintList.mk .bigint [⟨GREATER_THAN, "5"⟩]).matchesExpr "7" = true ↔
      MatchedWhen ⟨.bigint, [⟨GREATER_THAN, "5"⟩]⟩ "7") := by
  have hvalue : IsValue .bigint "7" :=
    isValue_of_decimal rfl (v := 7) (by decide +kernel) ⟨by decide, by decide⟩
  have hsatisfies : ∀ c ∈ [(⟨GREATER_THAN, "5"⟩ : Constraint)],
      Satisfies (fun _ _ => True) .bigint "7" c := by
    intro c hc
    obtain rfl := List.mem_singleton.mp hc
    exact satisfies_of_compare rfl (v := 7) (n := 5) (by decide +kernel) (by decide +kernel)
      (by decide)
  exact ⟨hvalue, hsatisfies, matchesExpr_iff (fun _ _ => True)
    ⟨.bigint, [⟨GREATER_THAN, "5"⟩]⟩ hvalue hsatisfies⟩

/-- Without constraints, a double is not matched. An integer is not matched with a number above
the range of its type or with a pattern that is none, nor an unsigned one with a negative number. -/
theorem not_matchesExpr :
    (IsValue .double "1.5" ∧
      (∀ c ∈ (ConstraintList.mk .double []).constraints,
        Satisfies (fun _ _ => True) .double "1.5" c) ∧
      (ConstraintList.mk .double []).matchesExpr "1.5" = false) ∧
    (IsValue .integer "7" ∧
      (∀ c ∈ [(⟨LESS_THAN, "99999999999"⟩ : Constraint)],
        Satisfies (fun _ _ => True) .integer "7" c) ∧
      (ConstraintList.mk .integer [⟨LESS_THAN, "99999999999"⟩]).matchesExpr "7" = false) ∧
    (IsValue .integer "7" ∧
      (∀ c ∈ [(⟨65, "%"⟩ : Constraint)], Satisfies (fun _ _ => True) .integer "7" c) ∧
      (ConstraintList.mk .integer [⟨65, "%"⟩]).matchesExpr "7" = false) ∧
    (IsValue .unsignedBigint "7" ∧
      (∀ c ∈ [(⟨GREATER_THAN, "-1"⟩ : Constraint)],
        Satisfies (fun _ _ => True) .unsignedBigint "7" c) ∧
      (ConstraintList.mk .unsignedBigint [⟨GREATER_THAN, "-1"⟩]).matchesExpr "7" = false) := by
  have hseven : decimal "7" = some 7 := by decide +kernel
  have hinteger : IsValue .integer "7" := isValue_of_decimal rfl hseven ⟨by decide, by decide⟩
  have hunsigned : IsValue .unsignedBigint "7" :=
    isValue_of_decimal rfl hseven ⟨by decide, by decide⟩
  refine ⟨⟨?_, fun c hc => absurd hc List.not_mem_nil, rfl⟩,
    ⟨hinteger, ?_, by decide +kernel⟩, ⟨hinteger, ?_, by decide +kernel⟩,
    ⟨hunsigned, ?_, by decide +kernel⟩⟩
  · intro T hT
    cases hT
  · intro c hc
    obtain rfl := List.mem_singleton.mp hc
    exact satisfies_of_compare rfl (n := 99999999999) hseven (by decide +kernel) (by decide)
  · intro c hc
    obtain rfl := List.mem_singleton.mp hc
    have hlike : supported 65 = false := by decide
    rw [Satisfies, hlike, if_neg Bool.noConfusion]
    trivial
  · intro c hc
    obtain rfl := List.mem_singleton.mp hc
    exact satisfies_of_compare rfl (n := -1) hseven (by decide +kernel) (by decide)

end Osquery.Tables
