import Osquery.Tables.ConstraintMatching

/-!
# Asking for constraints

A table asks whether its column has a constraint with an operator, and for the expressions under
an operator, as texts or as integers. The first question tests the bits of an operator, the
second one compares operators, and the third one takes every expression that can be converted.

## Implementation notes

A `std::set` is an ordered set. The `long long` and `unsigned long long` of `getAll` are the
integer types of 64 bits.
-/

namespace Osquery.Tables

def MATCH : ℕ := 64
def LIKE : ℕ := 65
def GLOB : ℕ := 66
def REGEXP : ℕ := 67
def UNIQUE : ℕ := 1

/-- Flag for any operator type. -/
def ANY_OP : ℕ := 0xFF

/-- The operators of constraints. -/
def constraintOperators : List ℕ :=
  [EQUALS, GREATER_THAN, LESS_THAN_OR_EQUALS, LESS_THAN, GREATER_THAN_OR_EQUALS, MATCH, LIKE,
    GLOB, REGEXP, UNIQUE]

namespace ConstraintList

/-- `ConstraintList::exists`, which tests the bits of the operators. -/
def existsOp (list : ConstraintList) (ops : ℕ) : Bool :=
  if ops = ANY_OP then list.constraints.length > 0
  else list.constraints.any fun c => c.op &&& ops ≠ 0

/-- The expressions under an operator. -/
def getAll (list : ConstraintList) (op : ℕ) : Std.ExtTreeSet String :=
  list.constraints.foldl (fun set c => if c.op = op then set.insert c.expr else set) ∅

/-- The expressions that can be converted; the operator is not used. -/
def getAllOf (T : IntegerLiteral) (list : ConstraintList) (_op : ℕ) : Std.ExtTreeSet ℤ :=
  list.constraints.foldl (fun cs item => (T.tryTo item.expr).elim cs cs.insert) ∅

end ConstraintList

def QueryContext.hasConstraint (context : QueryContext) (column : String) (op : ℕ) : Bool :=
  match context.constraints[column]? with
  | none => false
  | some list => list.existsOp op

/-- The queries about an operator on a column agree. -/
structure QueriesAgree (context : QueryContext) (column : String) (op : ℕ) : Prop where
  exists_iff : (context.constraints.getD column {}).existsOp op = true ↔
    (context.constraints.getD column {}).getAll op ≠ ∅
  hasConstraint_eq : context.hasConstraint column op =
    (context.constraints.getD column {}).existsOp op
  getAllOf_iff : ∀ T n, n ∈ (context.constraints.getD column {}).getAllOf T op ↔
    ∃ expr ∈ (context.constraints.getD column {}).getAll op, T.tryTo expr = some n

/-- A constraint that shares a bit with the operator comes with one that has the operator, and so
does every number that is read from an expression. -/
def OnlyUnder (constraints : List Constraint) (op : ℕ) : Prop :=
  (∀ c ∈ constraints, c.op &&& op ≠ 0 → ∃ c' ∈ constraints, c'.op = op) ∧
  ∀ T : IntegerLiteral, ∀ c ∈ constraints, ∀ n, T.tryTo c.expr = some n →
    ∃ c' ∈ constraints, c'.op = op ∧ T.tryTo c'.expr = some n

namespace ConstraintList

theorem mem_foldl_insert {α β : Type} [Ord β] [Std.TransCmp (compare : β → β → Ordering)]
    [Std.LawfulEqCmp (compare : β → β → Ordering)] (f : α → Option β) (items : List α)
    (set : Std.ExtTreeSet β) (b : β) :
    b ∈ items.foldl (fun set a => (f a).elim set set.insert) set ↔
      b ∈ set ∨ ∃ a ∈ items, f a = some b := by
  induction items generalizing set with
  | nil => simp
  | cons a items ih =>
      rw [List.foldl_cons, ih]
      cases hf : f a with
      | none => simp [hf]
      | some b' =>
          rw [Option.elim_some, Std.ExtTreeSet.mem_insert, Std.LawfulEqCmp.compare_eq_iff_eq]
          simp only [List.mem_cons, exists_eq_or_imp, hf, Option.some.injEq]
          rw [or_comm (a := b' = b), or_assoc]

theorem mem_getAll {list : ConstraintList} {op : ℕ} {expr : String} :
    expr ∈ list.getAll op ↔ ∃ c ∈ list.constraints, c.op = op ∧ c.expr = expr := by
  have hstep : (fun (set : Std.ExtTreeSet String) (c : Constraint) =>
      if c.op = op then set.insert c.expr else set) =
        fun set c => (if c.op = op then some c.expr else none).elim set set.insert := by
    funext set c
    split <;> rfl
  rw [getAll, hstep, mem_foldl_insert]
  simp

theorem mem_getAllOf {T : IntegerLiteral} {list : ConstraintList} {op : ℕ} {n : ℤ} :
    n ∈ list.getAllOf T op ↔ ∃ c ∈ list.constraints, T.tryTo c.expr = some n := by
  rw [getAllOf, mem_foldl_insert]
  simp

theorem getAll_ne_empty {list : ConstraintList} {op : ℕ} :
    list.getAll op ≠ ∅ ↔ ∃ c ∈ list.constraints, c.op = op := by
  rw [Ne, Std.ExtTreeSet.eq_empty_iff_forall_not_mem]
  push Not
  simp only [mem_getAll]
  constructor
  · rintro ⟨expr, c, hc, hop, -⟩
    exact ⟨c, hc, hop⟩
  · rintro ⟨c, hc, hop⟩
    exact ⟨c.expr, c, hc, hop, rfl⟩

theorem existsOp_iff {list : ConstraintList} {op : ℕ} (hop : op ∈ constraintOperators) :
    list.existsOp op = true ↔ ∃ c ∈ list.constraints, c.op &&& op ≠ 0 := by
  have hany : op ≠ ANY_OP := by
    rintro rfl
    exact absurd hop (by decide)
  rw [existsOp, if_neg hany]
  simp

end ConstraintList

theorem hasConstraint_eq_existsOp (context : QueryContext) (column : String) (op : ℕ) :
    context.hasConstraint column op = (context.constraints.getD column {}).existsOp op := by
  rw [QueryContext.hasConstraint, Std.ExtTreeMap.getD_eq_getD_getElem?]
  cases context.constraints[column]? with
  | some list => rfl
  | none =>
      have hempty : (({} : ConstraintList).existsOp op) = false := by
        rw [ConstraintList.existsOp]
        split <;> rfl
      rw [Option.getD_none, hempty]

/-- The queries about an operator agree exactly when nothing about the column is found that is
not also found under the operator. -/
theorem queriesAgree_iff (context : QueryContext) (column : String) {op : ℕ}
    (hop : op ∈ constraintOperators) :
    QueriesAgree context column op ↔ OnlyUnder (context.constraintsOn column) op := by
  have hself (c : Constraint) (hc : c.op = op) : c.op &&& op ≠ 0 := by
    rw [hc, Nat.and_self]
    rintro rfl
    exact absurd hop (by decide)
  have hnumbers (T : IntegerLiteral) (n : ℤ) :
      (∃ expr ∈ (context.constraints.getD column {}).getAll op, T.tryTo expr = some n) ↔
        ∃ c ∈ context.constraintsOn column, c.op = op ∧ T.tryTo c.expr = some n := by
    simp only [ConstraintList.mem_getAll]
    constructor
    · rintro ⟨_, ⟨c, hc, hcop, rfl⟩, hread⟩
      exact ⟨c, hc, hcop, hread⟩
    · rintro ⟨c, hc, hcop, hread⟩
      exact ⟨c.expr, ⟨c, hc, hcop, rfl⟩, hread⟩
  constructor
  · rintro ⟨hexists, -, hall⟩
    refine ⟨fun c hc hbits => ?_, fun T c hc n hread => ?_⟩
    · exact ConstraintList.getAll_ne_empty.mp
        (hexists.mp ((ConstraintList.existsOp_iff hop).mpr ⟨c, hc, hbits⟩))
    · exact (hnumbers T n).mp ((hall T n).mp (ConstraintList.mem_getAllOf.mpr ⟨c, hc, hread⟩))
  · rintro ⟨hbits, hread⟩
    refine ⟨?_, hasConstraint_eq_existsOp context column op, fun T n => ?_⟩
    · rw [ConstraintList.existsOp_iff hop, ConstraintList.getAll_ne_empty]
      constructor
      · rintro ⟨c, hc, hshared⟩
        exact hbits c hc hshared
      · rintro ⟨c, hc, hcop⟩
        exact ⟨c, hc, hself c hcop⟩
    · rw [hnumbers, ConstraintList.mem_getAllOf]
      constructor
      · rintro ⟨c, hc, hn⟩
        exact hread T c hc n hn
      · rintro ⟨c, hc, -, hn⟩
        exact ⟨c, hc, hn⟩

/-- The context of a query with one constraint. -/
def oneConstraint (column : String) (affinity : ColumnType) (c : Constraint) : QueryContext where
  constraints := (∅ : Std.ExtTreeMap String ConstraintList).insert column ⟨affinity, [c]⟩
  colsUsed := none
  useCache := false

theorem queriesAgree_iff_equals :
    EQUALS ∈ constraintOperators ∧
    (QueriesAgree (oneConstraint "path" .text ⟨EQUALS, "/etc/hosts"⟩) "path" EQUALS ↔
      OnlyUnder ((oneConstraint "path" .text ⟨EQUALS, "/etc/hosts"⟩).constraintsOn "path")
        EQUALS) :=
  ⟨by decide, queriesAgree_iff (oneConstraint "path" .text ⟨EQUALS, "/etc/hosts"⟩) "path"
    (by decide)⟩

theorem getD_oneConstraint (column : String) (affinity : ColumnType) (c : Constraint) :
    (oneConstraint column affinity c).constraints.getD column {} = ⟨affinity, [c]⟩ :=
  Std.ExtTreeMap.getD_insert_self

/-- A pattern under `GLOB` passes for an equality, and a bound for a number that is asked for. -/
theorem not_queriesAgree :
    ¬ QueriesAgree (oneConstraint "path" .text ⟨GLOB, "/etc/*"⟩) "path" EQUALS ∧
    ¬ QueriesAgree (oneConstraint "pid" .integer ⟨LESS_THAN, "5"⟩) "pid" EQUALS := by
  constructor
  · intro h
    have hexists := h.exists_iff
    rw [getD_oneConstraint, ConstraintList.getAll_ne_empty] at hexists
    obtain ⟨c, hc, hop⟩ := hexists.mp (by decide)
    rw [List.mem_singleton.mp hc] at hop
    exact absurd hop (by decide)
  · intro h
    have hnumbers := h.getAllOf_iff .int 5
    rw [getD_oneConstraint, ConstraintList.mem_getAllOf] at hnumbers
    obtain ⟨expr, hexpr, -⟩ :=
      hnumbers.mp ⟨⟨LESS_THAN, "5"⟩, List.mem_singleton_self _, by decide +kernel⟩
    obtain ⟨c, hc, hop, -⟩ := ConstraintList.mem_getAll.mp hexpr
    rw [List.mem_singleton.mp hc] at hop
    exact absurd hop (by decide)

end Osquery.Tables
