import Osquery.Foundation.LastIndex
import Mathlib.Algebra.Order.Group.Int

/-!
# The cache that aggregates points of a metric before they are sent

A point is put into the last point with its path if both are of one type that can be
aggregated. Otherwise it is stored behind the others. An index has the place of the last point
of every path, and taking the points empties the cache.

## Implementation notes

Values and times are integers without bounds. An aggregated point is returned with the answer
of the attempt. The index is part of the cache only together with the fact that it is right,
so the place that it gives can be read without a check.
-/

namespace Osquery.NumericMonitoring

open Foundation.LastIndex

inductive PreAggregationType
  | none
  | sum
  | min
  | max
  | avg
  | stddev
  | p10
  | p50
  | p95
  | p99
  | invalidTypeUpperLimit
  deriving DecidableEq

structure Point where
  path_ : String
  value_ : ℤ
  pre_aggregation_type_ : PreAggregationType
  time_point_ : ℤ
  deriving DecidableEq

namespace Point

/-- The time is taken over before the type is looked at. -/
def tryToAggregate (p new_point : Point) : Bool × Point :=
  if p.path_ ≠ new_point.path_ then (false, p)
  else if p.pre_aggregation_type_ ≠ new_point.pre_aggregation_type_ then (false, p)
  else
    let p := { p with time_point_ := max p.time_point_ new_point.time_point_ }
    match p.pre_aggregation_type_ with
    | .none | .avg | .stddev | .p10 | .p50 | .p95 | .p99 => (false, p)
    | .sum => (true, { p with value_ := p.value_ + new_point.value_ })
    | .min => (true, { p with value_ := min p.value_ new_point.value_ })
    | .max => (true, { p with value_ := max p.value_ new_point.value_ })
    | .invalidTypeUpperLimit => (false, p)

end Point

/-- What aggregating does to values of a type, if that can be aggregated. -/
def PreAggregationType.operation : PreAggregationType → Option (ℤ → ℤ → ℤ)
  | .sum => some fun a b => a + b
  | .min => some Min.min
  | .max => some Max.max
  | _ => Option.none

namespace Point

/-- The point after another one of its path and type was tried. -/
def updated (p new_point : Point) : Point :=
  { p with
    value_ := match p.pre_aggregation_type_.operation with
      | none => p.value_
      | some op => op p.value_ new_point.value_
    time_point_ := max p.time_point_ new_point.time_point_ }

variable {p new_point : Point}

/-- Points of one path and type are aggregated if the type has an operation, and the stored
one takes over the time in any case. -/
theorem tryToAggregate_of_eq (hpath : p.path_ = new_point.path_)
    (htype : p.pre_aggregation_type_ = new_point.pre_aggregation_type_) :
    p.tryToAggregate new_point =
      (p.pre_aggregation_type_.operation.isSome, p.updated new_point) := by
  rw [tryToAggregate, if_neg (not_not_intro hpath), if_neg (not_not_intro htype), updated]
  obtain ⟨path, value, type, time⟩ := p
  cases type <;> rfl

theorem tryToAggregate_of_ne (hpath : p.path_ = new_point.path_)
    (htype : p.pre_aggregation_type_ ≠ new_point.pre_aggregation_type_) :
    p.tryToAggregate new_point = (false, p) := by
  rw [tryToAggregate, if_neg (not_not_intro hpath), if_pos htype]

theorem path_tryToAggregate (p new_point : Point) :
    (p.tryToAggregate new_point).2.path_ = p.path_ := by
  by_cases hpath : p.path_ = new_point.path_
  · by_cases htype : p.pre_aggregation_type_ = new_point.pre_aggregation_type_
    · rw [tryToAggregate_of_eq hpath htype]
      rfl
    · rw [tryToAggregate_of_ne hpath htype]
  · rw [tryToAggregate, if_pos hpath]

end Point

structure PreAggregationCache where
  points_index_ : Std.ExtTreeMap String Nat
  points_ : List Point
  indexed : ∀ path : String,
    points_index_[path]? = lastIndex path (points_.map Point.path_)

namespace PreAggregationCache

def empty : PreAggregationCache where
  points_index_ := ∅
  points_ := []
  indexed _ := Std.ExtTreeMap.getElem?_empty

/-- A point is stored behind the others, and is now the last one of its path. -/
def push (c : PreAggregationCache) (point : Point) : PreAggregationCache where
  points_index_ := c.points_index_.insert point.path_ c.points_.length
  points_ := c.points_ ++ [point]
  indexed path := by
    rw [Std.ExtTreeMap.getElem?_insert, List.map_append, List.map_singleton, lastIndex_concat,
      List.length_map, c.indexed]
    simp

/-- A stored point is replaced by one of its path. -/
def store (c : PreAggregationCache) (i : Fin c.points_.length) (point : Point)
    (hpath : point.path_ = c.points_[i].path_) : PreAggregationCache where
  points_index_ := c.points_index_
  points_ := c.points_.set i point
  indexed path := by
    have hlt : i < (c.points_.map Point.path_).length := by
      rw [List.length_map]
      exact i.isLt
    have hsame : (c.points_.set i point).map Point.path_ = c.points_.map Point.path_ := by
      rw [List.map_set, hpath, Fin.getElem_fin, ← List.getElem_map Point.path_ (h := hlt),
        List.set_getElem_self]
    rw [hsame, c.indexed]

/-- The place of the last point of a path splits the points. -/
theorem eq_append_of_indexed (c : PreAggregationCache) {path : String} {i : Nat}
    (h : c.points_index_[path]? = some i) :
    ∃ before previous after, c.points_ = before ++ previous :: after ∧ before.length = i ∧
      previous.path_ = path ∧ ∀ p ∈ after, p.path_ ≠ path := by
  rw [c.indexed] at h
  obtain ⟨paths, paths', heq, hlength, hafter⟩ := eq_append_of_lastIndex_eq_some h
  obtain ⟨before, rest, hpoints, rfl, hrest⟩ := List.map_eq_append_iff.mp heq
  obtain ⟨previous, after, rfl, hprevious, rfl⟩ := List.map_eq_cons_iff.mp hrest
  refine ⟨before, previous, after, hpoints, ?_, hprevious, ?_⟩
  · rwa [List.length_map] at hlength
  · intro p hp hpath
    exact hafter (List.mem_map.mpr ⟨p, hp, hpath⟩)

theorem lt_length (c : PreAggregationCache) {path : String} {i : Nat}
    (h : c.points_index_[path]? = some i) : i < c.points_.length := by
  obtain ⟨before, previous, after, hpoints, rfl, -⟩ := c.eq_append_of_indexed h
  rw [hpoints, List.length_append, List.length_cons]
  omega

def addPoint (c : PreAggregationCache) (point : Point) : PreAggregationCache :=
  match h : c.points_index_[point.path_]? with
  | none => c.push point
  | some previous_index =>
      let i : Fin c.points_.length := ⟨previous_index, c.lt_length h⟩
      let result := c.points_[i].tryToAggregate point
      let c := c.store i result.2 (Point.path_tryToAggregate _ _)
      if result.1 then c else c.push point

def takePoints (c : PreAggregationCache) : List Point × PreAggregationCache := (c.points_, empty)

/-- A point is the first of its path, or it is tried with the last one. -/
theorem addPoint_cases (c : PreAggregationCache) (point : Point) :
    ((∀ p ∈ c.points_, p.path_ ≠ point.path_) ∧
      (c.addPoint point).points_ = c.points_ ++ [point]) ∨
    ∃ before previous after, c.points_ = before ++ previous :: after ∧
      previous.path_ = point.path_ ∧ (∀ p ∈ after, p.path_ ≠ point.path_) ∧
      (c.addPoint point).points_ = before ++ (previous.tryToAggregate point).2 :: after ++
        if (previous.tryToAggregate point).1 then [] else [point] := by
  rw [addPoint]
  split
  · next h =>
      left
      refine ⟨?_, rfl⟩
      intro p hp hpath
      rw [c.indexed] at h
      exact not_mem_of_lastIndex_eq_none h (List.mem_map.mpr ⟨p, hp, hpath⟩)
  · next i h =>
      right
      obtain ⟨before, previous, after, hpoints, rfl, hpath, hafter⟩ := c.eq_append_of_indexed h
      refine ⟨before, previous, after, hpoints, hpath, hafter, ?_⟩
      have hlt : before.length < c.points_.length := c.lt_length h
      have hget : c.points_[before.length] = previous := by
        simp [hpoints]
      have hset (p : Point) : c.points_.set before.length p = before ++ p :: after := by
        simp [hpoints]
      simp only [Fin.getElem_fin, hget]
      split
      · simp [store, hset]
      · simp [store, hset, push]

end PreAggregationCache

end Osquery.NumericMonitoring
