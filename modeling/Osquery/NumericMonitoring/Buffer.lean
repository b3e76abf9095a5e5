import Osquery.NumericMonitoring.Metrics

/-!
# The buffer of metrics

Threads record points, and the flusher takes what is cached and hands it to the plugins point by
point. Whatever the threads do in between, no point is lost on the way: what the plugins got or
refused, what the flushers still have and what is cached have the sums, the least and greatest
values and the latest times of the points that were recorded, and the points that cannot be
aggregated are there with their values.

## Implementation notes

Flushes are numbered in the order in which they take points. A call of the plugins is one step,
and whether it succeeds is an input. A point is recorded with the values that the flags have
then. What the plugins got, what they refused and what was recorded are kept beside the buffer.
-/

namespace Osquery.NumericMonitoring

open Foundation.Reduction PreAggregationCache

/-! ### Points with the same metrics -/

/-- What stays of a point that cannot be aggregated. -/
def Point.observation (p : Point) : String × PreAggregationType × ℤ :=
  (p.path_, p.pre_aggregation_type_, p.value_)

/-- Points with the same totals, and with the same observations that cannot be aggregated. -/
structure SameMetrics (ps qs : List Point) : Prop where
  totals : ∀ (path : String) (type : PreAggregationType) (op : ℤ → ℤ → ℤ) (f : Point → ℤ),
    Std.Associative op → Std.Commutative op → type.operation.isSome = true →
    (∀ p q : Point, p.pre_aggregation_type_ = type → f (p.updated q) = op (f p) (f q)) →
    totalOf path type op f ps = totalOf path type op f qs
  observations : ((others ps).map Point.observation).Perm ((others qs).map Point.observation)

namespace SameMetrics

variable {ps qs rs : List Point}

theorem of_perm (h : ps.Perm qs) : SameMetrics ps qs where
  totals _ _ op _ _ _ _ _ := total_perm op ((h.filter _).map _)
  observations := (h.filter _).map _

theorem trans (h : SameMetrics ps qs) (h' : SameMetrics qs rs) : SameMetrics ps rs where
  totals path type op f hassoc hcomm htype hf :=
    (h.totals path type op f hassoc hcomm htype hf).trans
      (h'.totals path type op f hassoc hcomm htype hf)
  observations := h.observations.trans h'.observations

theorem append (h : SameMetrics ps qs) (rs rs' : List Point) :
    SameMetrics (rs ++ ps ++ rs') (rs ++ qs ++ rs') where
  totals path type op f hassoc hcomm htype hf := by
    simp only [totalOf_append, h.totals path type op f hassoc hcomm htype hf]
  observations := by
    simp only [others_append, List.map_append]
    exact (h.observations.append_left _).append_right _

end SameMetrics

/-- Adding a point to the cache is like storing it behind the others. -/
theorem sameMetrics_addPoint (c : PreAggregationCache) (point : Point) :
    SameMetrics (c.addPoint point).points_ (c.points_ ++ [point]) where
  totals path type op f hassoc hcomm htype hf := totalOf_addPoint path type htype hf c point
  observations := by
    obtain ⟨-, hpoints⟩ | ⟨before, previous, after, hpoints, -, hsame, -, hadded⟩ :=
      c.points_addPoint point
    · rw [hpoints]
    · rw [hadded, hpoints]
      have hupdated : (previous.updated point).pre_aggregation_type_ =
          previous.pre_aggregation_type_ := rfl
      cases hop : previous.pre_aggregation_type_.operation with
      | none =>
          have hvalue : (previous.updated point).observation = previous.observation := by
            simp only [Point.observation, Point.updated, hop]
          rw [Option.isSome_none, if_neg Bool.false_ne_true, others_append, others_append,
            others_append, others_append, others_cons_of_eq_none hop,
            others_cons_of_eq_none (p := previous.updated point) hop]
          simp only [List.map_append, List.map_cons, hvalue]
          exact .refl _
      | some op =>
          have hprevious : previous.pre_aggregation_type_.operation.isSome = true := by
            rw [hop]
            rfl
          have hpoint : point.pre_aggregation_type_.operation.isSome = true := hsame ▸ hprevious
          rw [Option.isSome_some, if_pos rfl, List.append_nil, others_append, others_append,
            others_append, others_cons_of_isSome hprevious,
            others_cons_of_isSome (p := previous.updated point) hprevious,
            others_cons_of_isSome hpoint]
          exact (List.append_nil _).symm ▸ .refl _

/-! ### The buffer -/

structure Buffer where
  cache_ : PreAggregationCache := .empty
  /-- The points that each flush still has to hand on. -/
  flushes : List (List Point) := []
  written : List Point := []
  refused : List Point := []
  recorded : List Point := []

inductive BufferAction
  | record (enabled : Bool) (pre_aggregation_time : UInt64) (point : Point) (sync ok : Bool)
  | takeCachedPoints
  | dispatch (flush : ℕ) (ok : Bool)

namespace Buffer

/-- A point whose call fails is lost. -/
def dispatchOne (b : Buffer) (point : Point) (ok : Bool) : Buffer :=
  if ok then { b with written := b.written ++ [point] }
  else { b with refused := b.refused ++ [point] }

def record (b : Buffer) (enabled : Bool) (pre_aggregation_time : UInt64) (point : Point)
    (sync ok : Bool) : Buffer :=
  if !enabled then b
  else
    let b := { b with recorded := b.recorded ++ [point] }
    if pre_aggregation_time = 0 || sync then b.dispatchOne point ok
    else { b with cache_ := b.cache_.addPoint point }

def takeCachedPoints (b : Buffer) : Buffer :=
  let taken := b.cache_.takePoints
  { b with cache_ := taken.2, flushes := b.flushes ++ [taken.1] }

/-- A flush hands on the next of its points. -/
def dispatch (b : Buffer) (flush : ℕ) (ok : Bool) : Buffer :=
  match b.flushes[flush]? with
  | some (point :: points) =>
      { b with flushes := b.flushes.set flush points }.dispatchOne point ok
  | _ => b

def step (b : Buffer) : BufferAction → Buffer
  | .record enabled pre_aggregation_time point sync ok =>
      b.record enabled pre_aggregation_time point sync ok
  | .takeCachedPoints => b.takeCachedPoints
  | .dispatch flush ok => b.dispatch flush ok

/-- The points that were handed on, are with a flush, or are cached. -/
def present (b : Buffer) : List Point :=
  b.written ++ b.refused ++ b.flushes.flatten ++ b.cache_.points_

/-- A point leaves one of several lists. -/
theorem flatten_perm_of_getElem? {α : Type*} {ls : List (List α)} {i : ℕ} {a : α} {as : List α}
    (h : ls[i]? = some (a :: as)) : ls.flatten.Perm (a :: (ls.set i as).flatten) := by
  induction ls generalizing i with
  | nil => cases h
  | cons l ls ih =>
      cases i with
      | zero =>
          obtain rfl := Option.some.inj h
          exact .refl _
      | succ i => exact ((ih h).append_left l).trans List.perm_middle

variable {b : Buffer}

theorem present_dispatchOne (point : Point) (ok : Bool) :
    (b.dispatchOne point ok).present.Perm (point :: b.present) := by
  cases ok with
  | true =>
      have hpresent : (b.dispatchOne point true).present =
          b.written ++ point :: (b.refused ++ b.flushes.flatten ++ b.cache_.points_) := by
        simp [dispatchOne, present]
      rw [hpresent, present]
      simp only [List.append_assoc]
      exact List.perm_middle
  | false =>
      have hpresent : (b.dispatchOne point false).present =
          b.written ++ b.refused ++ point :: (b.flushes.flatten ++ b.cache_.points_) := by
        simp [dispatchOne, present]
      rw [hpresent, present, List.append_assoc (b.written ++ b.refused)]
      exact List.perm_middle

theorem recorded_dispatchOne (point : Point) (ok : Bool) :
    (b.dispatchOne point ok).recorded = b.recorded := by
  cases ok <;> rfl

/-- Every step keeps the metrics of what was recorded. -/
theorem sameMetrics_step (h : SameMetrics b.present b.recorded) (action : BufferAction) :
    SameMetrics (b.step action).present (b.step action).recorded := by
  cases action with
  | record enabled pre_aggregation_time point sync ok =>
      have hrecorded : SameMetrics (b.present ++ [point]) (b.recorded ++ [point]) :=
        h.append [] [point]
      simp only [step, record]
      split
      · exact h
      · split
        · rw [recorded_dispatchOne]
          refine .trans (.of_perm (present_dispatchOne point ok)) (.trans (.of_perm ?_) hrecorded)
          exact (List.perm_append_singleton ..).symm
        · refine SameMetrics.trans ?_ hrecorded
          have hadded := (sameMetrics_addPoint b.cache_ point).append
            (b.written ++ b.refused ++ b.flushes.flatten) []
          simp only [present, List.append_assoc, List.append_nil] at hadded ⊢
          exact hadded
  | takeCachedPoints =>
      have hpresent : b.takeCachedPoints.present = b.present := by
        simp [takeCachedPoints, takePoints, present, empty]
      rw [step, hpresent]
      exact h
  | dispatch flush ok =>
      simp only [step, dispatch]
      split
      · next point points hflush =>
          rw [recorded_dispatchOne]
          refine .trans (.of_perm ?_) h
          refine (present_dispatchOne point ok).trans ?_
          have hleft := (((flatten_perm_of_getElem? hflush).append_left
            (b.written ++ b.refused)).append_right b.cache_.points_).symm
          refine List.Perm.trans ?_ hleft
          simp only [present, List.append_assoc, List.cons_append]
          exact (((List.perm_middle).append_left b.written).trans List.perm_middle).symm
      · exact h

/-- The metrics of the points that were recorded are those of other points. -/
structure Kept (recorded present : List Point) : Prop where
  sum : ∀ path, ((pointsOf path .sum present).map Point.value_).sum =
    ((pointsOf path .sum recorded).map Point.value_).sum
  min : ∀ path, ((pointsOf path .min present).map Point.value_).min? =
    ((pointsOf path .min recorded).map Point.value_).min?
  max : ∀ path, ((pointsOf path .max present).map Point.value_).max? =
    ((pointsOf path .max recorded).map Point.value_).max?
  latest : ∀ path (type : PreAggregationType), type.operation.isSome = true →
    ((pointsOf path type present).map Point.time_point_).max? =
      ((pointsOf path type recorded).map Point.time_point_).max?
  observations : ((others present).map Point.observation).Perm
    ((others recorded).map Point.observation)

theorem kept_of_sameMetrics {ps qs : List Point}
    (h : SameMetrics ps qs) : Kept qs ps where
  sum path := by
    rw [sum_eq_total, sum_eq_total]
    exact congrArg (Option.getD · 0) (h.totals path .sum _ Point.value_ inferInstance inferInstance
      rfl fun p q hp => value_updated (congrArg PreAggregationType.operation hp))
  min path := by
    rw [min?_eq_total, min?_eq_total]
    exact h.totals path .min _ Point.value_ inferInstance inferInstance rfl fun p q hp =>
      value_updated (congrArg PreAggregationType.operation hp)
  max path := by
    rw [max?_eq_total, max?_eq_total]
    exact h.totals path .max _ Point.value_ inferInstance inferInstance rfl fun p q hp =>
      value_updated (congrArg PreAggregationType.operation hp)
  latest path type htype := by
    rw [max?_eq_total, max?_eq_total]
    exact h.totals path type _ Point.time_point_ inferInstance inferInstance htype fun _ _ _ => rfl
  observations := h.observations

/-- In every interleaving the metrics of the points that were recorded are those of the points
that were handed on, are with a flush, or are cached. -/
theorem kept_foldl (actions : List BufferAction) :
    Kept (actions.foldl step {}).recorded (actions.foldl step {}).present := by
  have hrun : ∀ b : Buffer, SameMetrics b.present b.recorded →
      SameMetrics (actions.foldl step b).present (actions.foldl step b).recorded := by
    induction actions with
    | nil => exact fun b h => h
    | cons action actions ih => exact fun b h => ih _ (sameMetrics_step h action)
  exact kept_of_sameMetrics (hrun {} (.of_perm (.refl _)))

end Buffer

end Osquery.NumericMonitoring
