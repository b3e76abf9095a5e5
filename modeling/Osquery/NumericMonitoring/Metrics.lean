import Osquery.NumericMonitoring.PreAggregation
import Osquery.Foundation.Reduction
import Mathlib.Data.List.Induction

/-!
# Metrics that aggregating preserves

Points that are aggregated keep the sum, the least or the greatest value of their path, and the
latest time. Points of the other types are stored one by one, but each takes over the time of
the next one of its path and type. They come out as they were added exactly when no such time
is a later one.

## Implementation notes

The points are added in batches, each of which is taken before the next. The points of the
other types are compared as lists, over all paths together. That they differ once a time has
changed is carried by the sum of their times, which never falls below the one of the added
points.
-/

namespace Osquery.NumericMonitoring

open Foundation.Reduction

/-! ### Points of one path and type -/

/-- The points of a path and a type. -/
def pointsOf (path : String) (type : PreAggregationType) (points : List Point) : List Point :=
  points.filter fun p => p.path_ == path && p.pre_aggregation_type_ == type

/-- The points of the types that cannot be aggregated. -/
def others (points : List Point) : List Point :=
  points.filter fun p => p.pre_aggregation_type_.operation.isNone

/-- The last point of a path. -/
def lastOf (path : String) (points : List Point) : Option Point :=
  (points.filter fun p => p.path_ == path).getLast?

theorem pointsOf_append (path : String) (type : PreAggregationType) (points points' : List Point) :
    pointsOf path type (points ++ points') = pointsOf path type points ++
      pointsOf path type points' :=
  List.filter_append ..

theorem pointsOf_cons_of_pos {path : String} {type : PreAggregationType} {p : Point}
    (hpath : p.path_ = path) (htype : p.pre_aggregation_type_ = type) (points : List Point) :
    pointsOf path type (p :: points) = p :: pointsOf path type points :=
  List.filter_cons_of_pos (by simp [hpath, htype])

theorem pointsOf_cons_of_neg {path : String} {type : PreAggregationType} {p : Point}
    (h : ¬ (p.path_ = path ∧ p.pre_aggregation_type_ = type)) (points : List Point) :
    pointsOf path type (p :: points) = pointsOf path type points :=
  List.filter_cons_of_neg (by simpa using h)

theorem others_append (points points' : List Point) :
    others (points ++ points') = others points ++ others points' :=
  List.filter_append ..

theorem lastOf_append (path : String) (points points' : List Point) :
    lastOf path (points ++ points') = (lastOf path points').or (lastOf path points) := by
  rw [lastOf, List.filter_append, List.getLast?_append, lastOf, lastOf]

theorem lastOf_cons_of_forall {path : String} {p : Point} (hpath : p.path_ = path)
    {after : List Point} (hafter : ∀ q ∈ after, q.path_ ≠ path) :
    lastOf path (p :: after) = some p := by
  have hnil : after.filter (fun p => p.path_ == path) = [] := by
    simpa using hafter
  rw [lastOf, List.filter_cons_of_pos (by simpa using hpath), hnil]
  rfl

theorem lastOf_singleton (path : String) (p : Point) :
    lastOf path [p] = if p.path_ = path then some p else none := by
  by_cases h : p.path_ = path <;> simp [lastOf, h]

namespace PreAggregationCache

/-- A point is stored behind the others, or it is the next one after a point of its path and
type. -/
theorem points_addPoint (c : PreAggregationCache) (point : Point) :
    ((∀ q, lastOf point.path_ c.points_ = some q →
        q.pre_aggregation_type_ ≠ point.pre_aggregation_type_) ∧
      (c.addPoint point).points_ = c.points_ ++ [point]) ∨
    ∃ before previous after, c.points_ = before ++ previous :: after ∧
      previous.path_ = point.path_ ∧
      previous.pre_aggregation_type_ = point.pre_aggregation_type_ ∧
      (∀ p ∈ after, p.path_ ≠ point.path_) ∧
      (c.addPoint point).points_ = before ++ previous.updated point :: after ++
        if previous.pre_aggregation_type_.operation.isSome then [] else [point] := by
  obtain ⟨hnew, hpoints⟩ | ⟨before, previous, after, hpoints, hpath, hafter, hadded⟩ :=
    c.addPoint_cases point
  · left
    refine ⟨?_, hpoints⟩
    intro q hq
    have hnil : c.points_.filter (fun p => p.path_ == point.path_) = [] := by
      simpa using hnew
    rw [lastOf, hnil] at hq
    cases hq
  · by_cases htype : previous.pre_aggregation_type_ = point.pre_aggregation_type_
    · right
      rw [Point.tryToAggregate_of_eq hpath htype] at hadded
      exact ⟨before, previous, after, hpoints, hpath, htype, hafter, hadded⟩
    · left
      rw [Point.tryToAggregate_of_ne hpath htype] at hadded
      refine ⟨?_, ?_⟩
      · intro q hq
        rw [hpoints, lastOf_append, lastOf_cons_of_forall hpath hafter] at hq
        obtain rfl := Option.some.inj hq
        exact htype
      · rw [hadded, hpoints]
        rfl

/-! ### Totals -/

section Totals

variable (path : String) (type : PreAggregationType) {op : ℤ → ℤ → ℤ} [Std.Associative op]
  [Std.Commutative op] {f : Point → ℤ}

/-- What an operation makes of a path and a type, from one number for each point. -/
def totalOf (op : ℤ → ℤ → ℤ) (f : Point → ℤ) (points : List Point) : Option ℤ :=
  total op ((pointsOf path type points).map f)

omit [Std.Commutative op] in
theorem totalOf_append (points points' : List Point) :
    totalOf path type op f (points ++ points') =
      join op (totalOf path type op f points) (totalOf path type op f points') := by
  rw [totalOf, pointsOf_append, List.map_append, total_append, totalOf, totalOf]

variable (htype : type.operation.isSome = true)
  (hf : ∀ p q : Point, p.pre_aggregation_type_ = type → f (p.updated q) = op (f p) (f q))

include htype hf

/-- Adding a point changes a total as storing it does. -/
theorem totalOf_addPoint (c : PreAggregationCache) (point : Point) :
    totalOf path type op f (c.addPoint point).points_ =
      totalOf path type op f (c.points_ ++ [point]) := by
  obtain ⟨-, hpoints⟩ | ⟨before, previous, after, hpoints, hpath, hsame, -, hadded⟩ :=
    c.points_addPoint point
  · rw [hpoints]
  · rw [hadded, hpoints]
    by_cases hmeant : previous.path_ = path ∧ previous.pre_aggregation_type_ = type
    · obtain ⟨rfl, rfl⟩ := hmeant
      have hupdated : pointsOf previous.path_ previous.pre_aggregation_type_
          (previous.updated point :: after) = previous.updated point ::
            pointsOf previous.path_ previous.pre_aggregation_type_ after :=
        pointsOf_cons_of_pos rfl rfl after
      have hprevious := pointsOf_cons_of_pos (p := previous) rfl rfl after
      have hpoint := pointsOf_cons_of_pos hpath.symm hsame.symm []
      calc totalOf _ _ op f _
        _ = total op ((pointsOf _ _ before).map f ++
              op (f previous) (f point) :: (pointsOf _ _ after).map f) := by
            rw [if_pos htype, List.append_nil, totalOf, pointsOf_append, hupdated,
              List.map_append, List.map_cons, hf previous point rfl]
        _ = totalOf _ _ op f (before ++ previous :: after ++ [point]) := by
            rw [total_put, totalOf, pointsOf_append, pointsOf_append, hprevious, hpoint,
              List.map_append, List.map_append]
            rfl
    · have hpoint : pointsOf path type [point] = [] := by
        apply pointsOf_cons_of_neg
        rwa [← hpath, ← hsame]
      have hupdated : ¬ ((previous.updated point).path_ = path ∧
          (previous.updated point).pre_aggregation_type_ = type) := hmeant
      rw [totalOf, totalOf, pointsOf_append, pointsOf_append, pointsOf_append _ _ _ [point],
        pointsOf_append, pointsOf_cons_of_neg hmeant, pointsOf_cons_of_neg hupdated, hpoint]
      split
      · rfl
      · rw [hpoint]

/-- What is stored after some points has the total of all of them. -/
theorem totalOf_foldl_addPoint (c : PreAggregationCache) (batch : List Point) :
    totalOf path type op f (batch.foldl addPoint c).points_ =
      totalOf path type op f (c.points_ ++ batch) := by
  induction batch generalizing c with
  | nil => rw [List.foldl_nil, List.append_nil]
  | cons point batch ih =>
      rw [List.foldl_cons, ih, totalOf_append, c.totalOf_addPoint path type htype hf,
        ← totalOf_append, ← List.append_cons]

end Totals

end PreAggregationCache

/-! ### The points of the other types -/

/-- A point comes later than the last one of its path, which has its type and cannot be
aggregated with it. -/
def Overtakes (before : List Point) (point : Point) : Prop :=
  ∃ q, lastOf point.path_ before = some q ∧
    q.pre_aggregation_type_ = point.pre_aggregation_type_ ∧
    q.pre_aggregation_type_.operation = none ∧ q.time_point_ < point.time_point_

/-- No point of the batch overtakes the last one of its path. -/
def Ordered (batch : List Point) : Prop :=
  ∀ before point after, batch = before ++ point :: after → ¬ Overtakes before point

theorem ordered_concat_iff (batch : List Point) (point : Point) :
    Ordered (batch ++ [point]) ↔ Ordered batch ∧ ¬ Overtakes batch point := by
  constructor
  · intro h
    constructor
    · rintro before p after rfl
      exact h before p (after ++ [point]) (by simp)
    · exact h batch point [] rfl
  · rintro ⟨hbatch, hpoint⟩ before p after heq
    cases after using List.reverseRecOn with
    | nil =>
        obtain ⟨rfl, hlast⟩ := List.append_inj' heq rfl
        obtain rfl := (List.cons.inj hlast).1
        exact hpoint
    | append_singleton after q =>
        rw [← List.cons_append, ← List.append_assoc] at heq
        exact hbatch before p after (List.append_inj' heq rfl).1

/-- The sum of the times of the points of the other types. -/
def times (points : List Point) : ℤ := ((others points).map Point.time_point_).sum

theorem times_append (points points' : List Point) :
    times (points ++ points') = times points + times points' := by
  rw [times, others_append, List.map_append, List.sum_append, times, times]

/-- Of the last stored and the last added point of a path. -/
def Agrees (stored added : Point) : Prop :=
  stored.pre_aggregation_type_ = added.pre_aggregation_type_ ∧
    (added.pre_aggregation_type_.operation = none → stored = added)

/-- What the stored points have to do with the added ones. -/
structure Stored (batch points : List Point) : Prop where
  last : ∀ path, Option.Rel Agrees (lastOf path points) (lastOf path batch)
  length_eq : (others points).length = (others batch).length
  times_le : times batch ≤ times points
  others_iff : others points = others batch ↔ Ordered batch

theorem others_cons_of_isSome {p : Point} (h : p.pre_aggregation_type_.operation.isSome = true)
    (points : List Point) : others (p :: points) = others points := by
  apply List.filter_cons_of_neg
  rw [Option.isNone_eq_false_iff.mpr h]
  exact Bool.false_ne_true

theorem others_cons_of_eq_none {p : Point} (h : p.pre_aggregation_type_.operation = none)
    (points : List Point) : others (p :: points) = p :: others points :=
  List.filter_cons_of_pos (Option.isNone_iff_eq_none.mpr h)

theorem times_cons_of_eq_none {p : Point} (h : p.pre_aggregation_type_.operation = none)
    (points : List Point) : times (p :: points) = p.time_point_ + times points := by
  rw [times, others_cons_of_eq_none h, List.map_cons, List.sum_cons, times]

/-- Replacing a point by one of its path changes no last point of another path. -/
theorem lastOf_replace {path : String} (p p' : Point) (hp : p.path_ ≠ path)
    (hp' : p'.path_ = p.path_) (before after : List Point) :
    lastOf path (before ++ p' :: after) = lastOf path (before ++ p :: after) := by
  have hcons {q : Point} (hq : q.path_ ≠ path) :
      lastOf path (q :: after) = lastOf path after := by
    rw [lastOf, List.filter_cons_of_neg (by simpa using hq), lastOf]
  rw [lastOf_append, lastOf_append, hcons hp, hcons (hp' ▸ hp)]

theorem updated_of_le {p q : Point} (hop : p.pre_aggregation_type_.operation = none)
    (h : q.time_point_ ≤ p.time_point_) : p.updated q = p := by
  simp only [Point.updated, hop, max_eq_left h]

namespace Stored

variable {batch points : List Point} {point : Point}

theorem nil : Stored [] [] where
  last _ := .none
  length_eq := rfl
  times_le := le_refl _
  others_iff := by
    refine iff_of_true rfl ?_
    intro before point after heq
    exact absurd heq.symm (List.append_ne_nil_of_right_ne_nil _ (List.cons_ne_nil point after))

/-- The last points after another one was added. -/
theorem last_concat (h : ∀ path, path ≠ point.path_ →
      Option.Rel Agrees (lastOf path points) (lastOf path batch))
    (hlast : ∃ q, lastOf point.path_ points = some q ∧ Agrees q point) (path : String) :
    Option.Rel Agrees (lastOf path points) (lastOf path (batch ++ [point])) := by
  rw [lastOf_append, lastOf_singleton]
  by_cases hpath : point.path_ = path
  · subst hpath
    obtain ⟨q, hq, hagrees⟩ := hlast
    rw [if_pos rfl, Option.some_or, hq]
    exact .some hagrees
  · rw [if_neg hpath, Option.none_or]
    exact h path (Ne.symm hpath)

variable (h : Stored batch points)

include h

theorem concat (hno : ¬ Overtakes batch point) :
    Stored (batch ++ [point]) (points ++ [point]) where
  last := by
    apply last_concat
    · intro path hpath
      rw [lastOf_append, lastOf_singleton, if_neg hpath.symm, Option.none_or]
      exact h.last path
    · refine ⟨point, ?_, rfl, fun _ => rfl⟩
      rw [lastOf_append, lastOf_singleton, if_pos rfl, Option.some_or]
  length_eq := by
    rw [others_append, others_append, List.length_append, List.length_append, h.length_eq]
  times_le := by
    rw [times_append, times_append]
    exact add_le_add_left h.times_le _
  others_iff := by
    rw [others_append, others_append, List.append_cancel_right_eq, h.others_iff,
      ordered_concat_iff, and_iff_left hno]

/-- The last stored point of the path of a point that is added. -/
theorem agrees_of_lastOf {path : String} {previous : Point}
    (hlast : lastOf path points = some previous) :
    ∃ q, lastOf path batch = some q ∧ Agrees previous q := by
  have hrel := h.last path
  rw [hlast] at hrel
  cases hq : lastOf path batch with
  | none =>
      rw [hq] at hrel
      cases hrel
  | some q =>
      rw [hq] at hrel
      cases hrel with
      | some hagrees => exact ⟨q, rfl, hagrees⟩

theorem exists_of_lastOf {path : String} {q : Point} (hq : lastOf path batch = some q) :
    ∃ previous, lastOf path points = some previous ∧ Agrees previous q := by
  have hrel := h.last path
  rw [hq] at hrel
  cases hlast : lastOf path points with
  | none =>
      rw [hlast] at hrel
      cases hrel
  | some previous =>
      rw [hlast] at hrel
      cases hrel with
      | some hagrees => exact ⟨previous, rfl, hagrees⟩

section Next

variable {before after : List Point} {previous : Point}
  (hpoints : points = before ++ previous :: after) (hpath : previous.path_ = point.path_)
  (hsame : previous.pre_aggregation_type_ = point.pre_aggregation_type_)
  (hafter : ∀ p ∈ after, p.path_ ≠ point.path_)

include hpoints hpath hsame hafter

omit hsame hafter in
theorem last_updated {path : String} (hne : path ≠ point.path_) :
    Option.Rel Agrees (lastOf path (before ++ previous.updated point :: after))
      (lastOf path batch) := by
  rw [lastOf_replace previous (previous.updated point) (hpath ▸ hne.symm) rfl,
    ← hpoints]
  exact h.last path

theorem updated_of_isSome (hop : previous.pre_aggregation_type_.operation.isSome = true) :
    Stored (batch ++ [point]) (before ++ previous.updated point :: after) := by
  have hpoint : others [point] = [] := others_cons_of_isSome (hsame ▸ hop) []
  have hbatch : others (batch ++ [point]) = others batch := by
    rw [others_append, hpoint, List.append_nil]
  have hstored : others (before ++ previous.updated point :: after) = others points := by
    rw [hpoints, others_append, others_append, others_cons_of_isSome hop]
    exact congrArg _ (others_cons_of_isSome (p := previous.updated point) hop after)
  have hno : ¬ Overtakes batch point := by
    rintro ⟨q, -, htype, hnone, -⟩
    rw [htype, ← hsame] at hnone
    simp [hnone] at hop
  constructor
  · apply last_concat fun path => h.last_updated hpoints hpath
    refine ⟨previous.updated point, ?_, hsame, ?_⟩
    · rw [lastOf_append, lastOf_cons_of_forall (p := previous.updated point) hpath hafter,
        Option.some_or]
    · intro hnone
      rw [← hsame] at hnone
      simp [hnone] at hop
  · rw [hbatch, hstored, h.length_eq]
  · rw [times, times, hbatch, hstored]
    exact h.times_le
  · rw [hbatch, hstored, h.others_iff, ordered_concat_iff, and_iff_left hno]

theorem updated_of_eq_none (hop : previous.pre_aggregation_type_.operation = none) :
    Stored (batch ++ [point]) (before ++ previous.updated point :: after ++ [point]) := by
  obtain ⟨q, hq, hagrees⟩ : ∃ q, lastOf point.path_ batch = some q ∧ Agrees previous q := by
    apply h.agrees_of_lastOf
    rw [hpoints, lastOf_append, lastOf_cons_of_forall hpath hafter, Option.some_or]
  obtain rfl := hagrees.2 (hagrees.1 ▸ hop)
  have hovertakes : Overtakes batch point ↔ previous.time_point_ < point.time_point_ := by
    simp [Overtakes, hq, hsame, hsame ▸ hop]
  by_cases hlt : previous.time_point_ < point.time_point_
  · have hpoint : point.pre_aggregation_type_.operation = none := hsame ▸ hop
    have hlast := lastOf_singleton point.path_ point
    have hupdated : (previous.updated point).time_point_ = point.time_point_ := max_eq_right hlt.le
    have htimes : times (batch ++ [point]) <
        times (before ++ previous.updated point :: after ++ [point]) := by
      have hle := h.times_le
      rw [hpoints, times_append, times_cons_of_eq_none hop] at hle
      rw [times_append, times_append, times_append,
        times_cons_of_eq_none (p := previous.updated point) hop, hupdated]
      omega
    constructor
    · apply last_concat
      · intro path hpath'
        rw [lastOf_append, lastOf_singleton, if_neg hpath'.symm, Option.none_or]
        exact h.last_updated hpoints hpath hpath'
      · refine ⟨point, ?_, rfl, fun _ => rfl⟩
        rw [lastOf_append, hlast, if_pos rfl, Option.some_or]
    · have hlength := h.length_eq
      rw [hpoints, others_append, others_cons_of_eq_none hop] at hlength
      rw [others_append, others_append _ [point], others_append,
        others_cons_of_eq_none (p := previous.updated point) hop]
      simp only [List.length_append, List.length_cons] at hlength ⊢
      omega
    · exact htimes.le
    · refine iff_of_false ?_ ?_
      · intro heq
        rw [times, times, heq] at htimes
        exact lt_irrefl _ htimes
      · rw [ordered_concat_iff, hovertakes]
        exact fun hordered => hordered.2 hlt
  · rw [updated_of_le hop (not_lt.mp hlt), ← hpoints]
    exact h.concat (mt hovertakes.mp hlt)

end Next

end Stored

namespace PreAggregationCache

theorem stored_addPoint {batch : List Point} {c : PreAggregationCache}
    (h : Stored batch c.points_) (point : Point) :
    Stored (batch ++ [point]) (c.addPoint point).points_ := by
  obtain ⟨hother, hpoints⟩ | ⟨before, previous, after, hpoints, hpath, hsame, hafter, hadded⟩ :=
    c.points_addPoint point
  · rw [hpoints]
    apply h.concat
    rintro ⟨q, hq, htype, -⟩
    obtain ⟨previous, hprevious, hagrees⟩ := h.exists_of_lastOf hq
    exact hother previous hprevious (hagrees.1.trans htype)
  · rw [hadded]
    cases hop : previous.pre_aggregation_type_.operation with
    | none => exact h.updated_of_eq_none hpoints hpath hsame hafter hop
    | some op =>
        rw [Option.isSome_some, if_pos rfl, List.append_nil]
        exact h.updated_of_isSome hpoints hpath hsame hafter (Option.isSome_of_eq_some hop)

theorem stored_foldl_addPoint (batch : List Point) :
    Stored batch (batch.foldl addPoint empty).points_ := by
  induction batch using List.reverseRecOn with
  | nil => exact .nil
  | append_singleton batch point ih =>
      rw [List.foldl_concat]
      exact stored_addPoint ih point

/-! ### Points that are added and taken -/

/-- What is taken after each batch of points. -/
def taken (c : PreAggregationCache) : List (List Point) → List (List Point)
  | [] => []
  | batch :: batches =>
      let result := (batch.foldl addPoint c).takePoints
      result.1 :: taken result.2 batches

/-- Every batch starts with an empty cache. -/
theorem taken_empty (batches : List (List Point)) :
    taken empty batches = batches.map fun batch => (batch.foldl addPoint empty).points_ := by
  induction batches with
  | nil => rfl
  | cons batch batches ih => exact congrArg (_ :: ·) ih

/-- The metrics of the added points are the ones of the points that are taken. -/
structure Preserves (added taken : List Point) : Prop where
  sum : ∀ path, ((pointsOf path .sum taken).map Point.value_).sum =
    ((pointsOf path .sum added).map Point.value_).sum
  min : ∀ path, ((pointsOf path .min taken).map Point.value_).min? =
    ((pointsOf path .min added).map Point.value_).min?
  max : ∀ path, ((pointsOf path .max taken).map Point.value_).max? =
    ((pointsOf path .max added).map Point.value_).max?
  latest : ∀ path, ∀ type ∈ [PreAggregationType.sum, .min, .max],
    ((pointsOf path type taken).map Point.time_point_).max? =
      ((pointsOf path type added).map Point.time_point_).max?
  others : others taken = others added

section Taken

variable (path : String) {type : PreAggregationType} {op : ℤ → ℤ → ℤ} [Std.Associative op]
  [Std.Commutative op] {f : Point → ℤ}

/-- A total that one update keeps is the same for all points that are added and taken. -/
theorem totalOf_taken (batches : List (List Point)) (htype : type.operation.isSome = true)
    (hf : ∀ p q : Point, p.pre_aggregation_type_ = type → f (p.updated q) = op (f p) (f q)) :
    total op ((pointsOf path type (taken empty batches).flatten).map f) =
      total op ((pointsOf path type batches.flatten).map f) := by
  rw [taken_empty]
  induction batches with
  | nil => rfl
  | cons batch batches ih =>
      have hbatch := totalOf_foldl_addPoint path type htype hf empty batch
      rw [totalOf, totalOf] at hbatch
      rw [List.map_cons, List.flatten_cons, List.flatten_cons, pointsOf_append, pointsOf_append,
        List.map_append, List.map_append, total_append, total_append, ih, hbatch]
      rfl

end Taken

theorem value_updated {p q : Point} {op : ℤ → ℤ → ℤ}
    (h : p.pre_aggregation_type_.operation = some op) :
    (p.updated q).value_ = op p.value_ q.value_ := by
  simp only [Point.updated, h]

theorem others_taken_iff (batches : List (List Point)) :
    others (taken empty batches).flatten = others batches.flatten ↔
      ∀ batch ∈ batches, Ordered batch := by
  rw [taken_empty]
  induction batches with
  | nil => simp
  | cons batch batches ih =>
      have hstored := stored_foldl_addPoint batch
      rw [List.map_cons, List.flatten_cons, List.flatten_cons, others_append, others_append,
        List.forall_mem_cons, ← ih, ← hstored.others_iff]
      constructor
      · exact fun heq => List.append_inj heq hstored.length_eq
      · rintro ⟨hbatch, hrest⟩
        rw [hbatch, hrest]

/-- The metrics are preserved exactly when no point of a type that cannot be aggregated is
followed, as the next one of its path in its batch, by a later one of its type. -/
theorem preserves_taken_iff (batches : List (List Point)) :
    Preserves batches.flatten (taken empty batches).flatten ↔
      ∀ batch ∈ batches, Ordered batch := by
  rw [← others_taken_iff]
  constructor
  · exact Preserves.others
  · intro hothers
    have hlatest : ∀ path (type : PreAggregationType), type.operation.isSome = true →
        ((pointsOf path type (taken empty batches).flatten).map Point.time_point_).max? =
          ((pointsOf path type batches.flatten).map Point.time_point_).max? := by
      intro path type htype
      rw [max?_eq_total, max?_eq_total]
      exact totalOf_taken path batches htype fun _ _ _ => rfl
    exact {
      sum := by
        intro path
        rw [sum_eq_total, sum_eq_total]
        exact congrArg (Option.getD · 0) (totalOf_taken path batches rfl fun p q hp =>
          value_updated (congrArg PreAggregationType.operation hp))
      min := by
        intro path
        rw [min?_eq_total, min?_eq_total]
        exact totalOf_taken path batches rfl fun p q hp =>
          value_updated (congrArg PreAggregationType.operation hp)
      max := by
        intro path
        rw [max?_eq_total, max?_eq_total]
        exact totalOf_taken path batches rfl fun p q hp =>
          value_updated (congrArg PreAggregationType.operation hp)
      latest := by
        intro path type htype
        apply hlatest
        simp only [List.mem_cons, List.not_mem_nil, or_false] at htype
        obtain rfl | rfl | rfl := htype <;> rfl
      others := hothers }

/-- Two points that are only observed at different times. -/
def observations : List (List Point) := [[⟨"a", 1, .none, 0⟩, ⟨"a", 1, .none, 1⟩]]

theorem observations_not_preserved :
    ¬ Preserves observations.flatten (taken empty observations).flatten := by
  intro h
  have hothers := h.others
  revert hothers
  decide

end PreAggregationCache

end Osquery.NumericMonitoring
