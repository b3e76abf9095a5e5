import Mathlib.Algebra.Order.BigOperators.Group.List
import Osquery.Config.Pack
import Osquery.Foundation.Buckets
import Osquery.Foundation.DecimalText

/-!
# Decorators

The decorators parser keeps, for every source, the queries to run when the configuration is
loaded, before every query, and on intervals. An interval is the name of a member, read as a
number with zero for what is no numeral, and zero passes the test that it is a multiple of
sixty. Running the decorators of an interval divides the time by each interval kept.

## Implementation notes

The scheduler passes times that are multiples of sixty; nothing here depends on it. What a query
returns is a parameter, and the queries that ran are recorded. The values under the kinds of
decorators come from an object: the member of an array, undefined in the library, is absent. What
is due goes by the integer that a whole name denotes, not by what the parser reads. With the
decorators disabled none is due.
-/

namespace Osquery.Config

open Core.Rows Foundation.Buckets Foundation.DecimalText Foundation.Grouping
open Foundation.JsonText Foundation.Numeral

/-! ### The parser -/

inductive DecorationPoint
  | DECORATE_LOAD
  | DECORATE_ALWAYS
  | DECORATE_INTERVAL
  deriving DecidableEq

def kDecorationPointKeys : DecorationPoint → String
  | .DECORATE_LOAD => "load"
  | .DECORATE_ALWAYS => "always"
  | .DECORATE_INTERVAL => "interval"

abbrev DecorationStore := Std.ExtTreeMap String (Std.ExtTreeMap String String)

abbrev IntervalMap := Std.ExtTreeMap UInt64 (List String)

structure DecoratorsParser where
  always_ : Std.ExtTreeMap String (List String)
  load_ : Std.ExtTreeMap String (List String)
  intervals_ : Std.ExtTreeMap String IntervalMap
  kDecorations : DecorationStore

/-- Whether the decorators are disabled, and the rows of a query. -/
structure DecoratorsHost where
  disable_decorators : Bool
  sql : String → QueryData

/-- The items of an array that are strings. -/
def queryTexts (value : Json) : List String :=
  (getArray value).filterMap fun item =>
    match item with
    | .str s => some (cstr s)
    | _ => none

/-! ### Running decorators -/

/-- The decorations after a run, and the queries that ran with their sources. -/
structure DecoratorsRun where
  kDecorations : DecorationStore
  ran : List (String × String)

def addDecoration (source name value : String) (store : DecorationStore) : DecorationStore :=
  store.insert source ((store.getD source ∅).insert name value)

def clearDecorations (source : String) (store : DecorationStore) : DecorationStore :=
  store.insert source ∅

/-- Only the first row of a query decorates. -/
def runQuery (sql : String → QueryData) (source : String) (run : DecoratorsRun) (query : String) :
    DecoratorsRun where
  kDecorations :=
    match sql query with
    | [] => run.kDecorations
    | row :: _ => row.toList.foldl
        (fun store column => addDecoration source column.1 column.2 store) run.kDecorations
  ran := run.ran ++ [(source, query)]

def runQueries (sql : String → QueryData) (source : String) (queries : List String)
    (run : DecoratorsRun) : DecoratorsRun :=
  queries.foldl (runQuery sql source) run

/-- The source is asked for; the empty name asks for all sources. -/
def isTarget (source target : String) : Bool := source = "" || target = source

def runSources (sql : String → QueryData) (source : String)
    (targets : Std.ExtTreeMap String (List String)) (run : DecoratorsRun) : DecoratorsRun :=
  targets.toList.foldl
    (fun run target =>
      if isTarget source target.1 then runQueries sql target.1 target.2 run else run) run

/-- The remainder of a division; there is none by zero. -/
def remainder (time rate : UInt64) : Option UInt64 :=
  if rate = 0 then none else some (time % rate)

def runInterval (sql : String → QueryData) (time : UInt64) (source target : String)
    (run : DecoratorsRun) (interval : UInt64 × List String) : Option DecoratorsRun := do
  if (← remainder time interval.1) = 0 then
    if isTarget source target then return runQueries sql target interval.2 run
  return run

def runIntervals (sql : String → QueryData) (time : UInt64) (source : String)
    (intervals_ : Std.ExtTreeMap String IntervalMap) (run : DecoratorsRun) :
    Option DecoratorsRun :=
  intervals_.toList.foldlM
    (fun run target =>
      target.2.toList.foldlM (runInterval sql time source target.1) run) run

/-- The run ends in nothing where it divides by zero. -/
def runDecorators (host : DecoratorsHost) (point : DecorationPoint) (time : UInt64)
    (source : String) (parser : DecoratorsParser) : Option DecoratorsRun :=
  let run : DecoratorsRun := ⟨parser.kDecorations, []⟩
  if host.disable_decorators then some run
  else
    match point with
    | .DECORATE_LOAD => some (runSources host.sql source parser.load_ run)
    | .DECORATE_ALWAYS => some (runSources host.sql source parser.always_ run)
    | .DECORATE_INTERVAL => runIntervals host.sql time source parser.intervals_ run

/-! ### Updating the parser -/

def clearSources (source : String) (parser : DecoratorsParser) : DecoratorsParser :=
  { parser with
    intervals_ := parser.intervals_.modify source fun _ => ∅
    always_ := parser.always_.modify source fun _ => []
    load_ := parser.load_.modify source fun _ => [] }

/-- The decorations of the source are cleared, and so is what decorates. -/
def clear (source : String) (parser : DecoratorsParser) : DecoratorsParser :=
  { clearSources source parser with
    kDecorations := clearDecorations source parser.kDecorations }

section Update

variable (host : Host)

/-- The queries of a kind of decorators. -/
def pointQueries (point : DecorationPoint) (doc : Json) : List String :=
  ((member? (kDecorationPointKeys point) doc).map queryTexts).getD []

def intervalMembers (doc : Json) : List (String × Json) :=
  ((member? (kDecorationPointKeys .DECORATE_INTERVAL) doc).map getObject).getD []

/-- The number that the name of an interval is read as. -/
def rateOf (item : String × Json) : UInt64 := valueToSize host (.str item.1)

/-- An interval that is no multiple of sixty is skipped. -/
def updateInterval (source : String) (intervals_ : Std.ExtTreeMap String IntervalMap)
    (item : String × Json) : Std.ExtTreeMap String IntervalMap :=
  let rate := rateOf host item
  if rate % 60 ≠ 0 then intervals_
  else (queryTexts item.2).foldl
    (fun intervals_ query =>
      intervals_.insert source (pushBack (intervals_.getD source ∅) rate query)) intervals_

def updateDecorations (source : String) (doc : Json) (parser : DecoratorsParser) :
    DecoratorsParser :=
  { parser with
    load_ := (pointQueries .DECORATE_LOAD doc).foldl (fun map q => pushBack map source q)
      parser.load_
    always_ := (pointQueries .DECORATE_ALWAYS doc).foldl (fun map q => pushBack map source q)
      parser.always_
    intervals_ := (intervalMembers doc).foldl (updateInterval host source) parser.intervals_ }

end Update

namespace DecoratorsParser

def setUp : DecoratorsParser where
  always_ := ∅
  load_ := ∅
  intervals_ := ∅
  kDecorations := ∅

/-- Update a source with the decorators of its configuration, if there are any, and run those
to run on load. -/
def update (host : Host) (decorators : DecoratorsHost) (source : String) (config : Option Json)
    (parser : DecoratorsParser) : Option DecoratorsParser :=
  let parser := clear source parser
  match config with
  | none => some parser
  | some doc => do
      let parser := updateDecorations host source doc parser
      let run ← runDecorators decorators .DECORATE_LOAD 0 source parser
      return { parser with kDecorations := run.kDecorations }

/-- Clear every source that has decorations. -/
def reset (parser : DecoratorsParser) : DecoratorsParser :=
  parser.kDecorations.keys.foldl (fun parser source => clear source parser) parser

end DecoratorsParser

/-! ### Runs -/

inductive DecoratorsStep
  | update (decorators : DecoratorsHost) (source : String) (config : Option Json)
  | reset

def DecoratorsStep.run (host : Host) (parser : DecoratorsParser) :
    DecoratorsStep → Option DecoratorsParser
  | .update decorators source config => parser.update host decorators source config
  | .reset => some parser.reset

def runSteps (host : Host) (steps : List DecoratorsStep) : Option DecoratorsParser :=
  steps.foldlM (DecoratorsStep.run host) DecoratorsParser.setUp

/-- The decorators that a source has after a step. -/
def DecoratorsStep.inForce (force : String → Option Json) : DecoratorsStep → String → Option Json
  | .update _ source config => Function.update force source config
  | .reset => fun _ => none

/-- The decorators that each source was last updated with. -/
def inForce (steps : List DecoratorsStep) : String → Option Json :=
  steps.foldl DecoratorsStep.inForce fun _ => none

/-- The integer that the whole name of an interval denotes, after white space. -/
def keyNumber (key : String) : Option ℤ :=
  decimal (String.ofList (key.toList.dropWhile isSpace))

/-- The name denotes a positive multiple of sixty that divides the time. -/
def IsDue (time : UInt64) (key : String) : Prop :=
  ∃ n ∈ keyNumber key, 0 < n ∧ 60 ∣ n ∧ n ∣ (time.toNat : ℤ)

instance (time : UInt64) (key : String) : Decidable (IsDue time key) :=
  inferInstanceAs (Decidable (∃ n ∈ keyNumber key, _))

/-- The queries whose interval is due, in document order. -/
def dueQueries (time : UInt64) (doc : Json) : List String :=
  (intervalMembers doc).flatMap fun item =>
    if IsDue time item.1 then queryTexts item.2 else []

/-- The queries due for a source. -/
def due (decorators : DecoratorsHost) (force : String → Option Json) (time : UInt64)
    (source : String) : List String :=
  if decorators.disable_decorators then []
  else ((force source).map (dueQueries time)).getD []

section Due

variable (host : Host)

/-- The interval decorators run without a division by zero, and what runs for each source is
what is due for it. -/
def RunsDue (decorators : DecoratorsHost) (steps : List DecoratorsStep) (time : UInt64) : Prop :=
  ∃ parser run, runSteps host steps = some parser ∧
    runDecorators decorators .DECORATE_INTERVAL time "" parser = some run ∧
    ∀ source, ((group Prod.fst run.ran source).map Prod.snd).Perm
      (due decorators (inForce steps) time source)

/-- No interval with a query is read as zero. -/
def NoZeroInterval (doc : Json) : Prop :=
  ∀ item ∈ intervalMembers doc, rateOf host item = 0 → queryTexts item.2 = []

/-- A rate under which the queries run at a time. -/
def RunsAt (time rate : UInt64) : Prop := rate ≠ 0 ∧ rate % 60 = 0 ∧ time % rate = 0

/-- An interval with a query that is read as such a rate is named by it. -/
def NoMisreadInterval (time : UInt64) (doc : Json) : Prop :=
  ∀ item ∈ intervalMembers doc, queryTexts item.2 ≠ [] → RunsAt time (rateOf host item) →
    keyNumber item.1 = some ((rateOf host item).toNat : ℤ)

end Due

/-! ### What a run of interval decorators does -/

section Running

variable (sql : String → QueryData) (time : UInt64)

@[simp] theorem ran_runQueries (source : String) (queries : List String)
    (run : DecoratorsRun) :
    (runQueries sql source queries run).ran = run.ran ++ queries.map (Prod.mk source) := by
  induction queries generalizing run with
  | nil => exact (List.append_nil _).symm
  | cons query queries ih =>
      have hstep : runQueries sql source (query :: queries) run =
          runQueries sql source queries (runQuery sql source run query) := rfl
      rw [hstep, ih, runQuery, List.append_assoc]
      rfl

@[simp] theorem remainder_zero : remainder time 0 = none := rfl

theorem remainder_of_ne_zero {rate : UInt64} (h : rate ≠ 0) :
    remainder time rate = some (time % rate) := if_neg h

/-- Steps that each succeed and run some queries. -/
theorem foldlM_ran {α : Type} {f : DecoratorsRun → α → Option DecoratorsRun}
    {g : α → List (String × String)} {l : List α}
    (h : ∀ a ∈ l, ∀ run, ∃ run', f run a = some run' ∧ run'.ran = run.ran ++ g a)
    (run : DecoratorsRun) :
    ∃ run', l.foldlM f run = some run' ∧ run'.ran = run.ran ++ l.flatMap g := by
  induction l generalizing run with
  | nil => exact ⟨run, rfl, (List.append_nil _).symm⟩
  | cons a l ih =>
      obtain ⟨run₁, hfirst, hran₁⟩ := h a (List.mem_cons_self ..) run
      obtain ⟨run₂, hrest, hran₂⟩ := ih (fun b hb => h b (List.mem_cons_of_mem _ hb)) run₁
      refine ⟨run₂, ?_, ?_⟩
      · rw [List.foldlM_cons, hfirst]
        exact hrest
      · rw [hran₂, hran₁, List.append_assoc, List.flatMap_cons]

/-- A step that fails wherever it is taken. -/
theorem foldlM_eq_none {α β : Type} {f : β → α → Option β} {l : List α} {a : α} (ha : a ∈ l)
    (h : ∀ b, f b a = none) (b : β) : l.foldlM f b = none := by
  induction l generalizing b with
  | nil => cases ha
  | cons a' l ih =>
      rw [List.foldlM_cons]
      obtain rfl | ha := List.mem_cons.mp ha
      · rw [h b]
        rfl
      · cases f b a' with
        | none => rfl
        | some b' => exact ih ha b'

/-- The queries of the intervals that divide the time. -/
def ranAt (time : UInt64) (intervals : IntervalMap) : List String :=
  (intervals.toList.filter fun e => time % e.1 = 0).flatMap Prod.snd

theorem runInterval_of_ne_zero (target : String) {interval : UInt64 × List String}
    (h : interval.1 ≠ 0) (run : DecoratorsRun) :
    ∃ run', runInterval sql time "" target run interval = some run' ∧
      run'.ran = run.ran ++
        (if time % interval.1 = 0 then interval.2 else []).map (Prod.mk target) := by
  rw [runInterval, remainder_of_ne_zero time h]
  by_cases hdvd : time % interval.1 = 0
  · exact ⟨runQueries sql target interval.2 run, by simp [hdvd, isTarget], by simp [hdvd]⟩
  · exact ⟨run, by simp [hdvd], by simp [hdvd]⟩

theorem runIntervals_of_ne_zero {intervals_ : Std.ExtTreeMap String IntervalMap}
    (h : ∀ target ∈ intervals_.toList, ∀ interval ∈ target.2.toList, interval.1 ≠ 0)
    (run : DecoratorsRun) :
    ∃ run', runIntervals sql time "" intervals_ run = some run' ∧
      run'.ran = run.ran ++
        intervals_.toList.flatMap fun target => (ranAt time target.2).map (Prod.mk target.1) := by
  refine foldlM_ran (fun target htarget run => ?_) run
  have hinterval := fun interval hinterval =>
    runInterval_of_ne_zero sql time target.1 (h target htarget interval hinterval)
  obtain ⟨run', hrun, hran⟩ := foldlM_ran hinterval run
  refine ⟨run', hrun, hran.trans ?_⟩
  rw [ranAt, flatMap_filter, List.map_flatMap]
  simp only [decide_eq_true_eq]

theorem runIntervals_eq_none {intervals_ : Std.ExtTreeMap String IntervalMap}
    {target : String × IntervalMap} (htarget : target ∈ intervals_.toList)
    {interval : UInt64 × List String} (hinterval : interval ∈ target.2.toList)
    (h : interval.1 = 0) (run : DecoratorsRun) :
    runIntervals sql time "" intervals_ run = none :=
  foldlM_eq_none htarget
    (foldlM_eq_none hinterval fun run => by rw [runInterval, h, remainder_zero]; rfl) run

end Running

/-! ### The intervals of a source -/

variable {host : Host}

/-- The queries on intervals that are multiples of sixty, in document order. -/
def intervalItems (host : Host) (doc : Json) : List (UInt64 × String) :=
  (intervalMembers doc).flatMap fun item =>
    if rateOf host item % 60 ≠ 0 then []
    else (queryTexts item.2).map (Prod.mk (rateOf host item))

def intervalsOf (host : Host) (config : Option Json) : IntervalMap :=
  fill ((config.map (intervalItems host)).getD []) ∅

/-! ### Runs keep the intervals of the sources -/

@[simp] theorem getD_modify_const {β : Type} (map : Std.ExtTreeMap String β) (source k : String)
    (v : β) : (map.modify source fun _ => v).getD k v =
      if source = k then v else map.getD k v := by
  rw [Std.ExtTreeMap.getD_modify]
  by_cases h : source = k
  · subst h
    rw [if_pos Std.compare_self, if_pos rfl]
    cases map[source]? <;> rfl
  · rw [if_neg (Std.compare_eq_iff_eq.not.mpr h), if_neg h]

/-- The parser keeps the intervals of what is in force, and every source with intervals has
decorations. -/
structure Keeps (host : Host) (force : String → Option Json) (parser : DecoratorsParser) :
    Prop where
  intervals : ∀ source, parser.intervals_.getD source ∅ = intervalsOf host (force source)
  listed : ∀ source, source ∈ parser.intervals_ → source ∈ parser.kDecorations

theorem updateInterval_eq (host : Host) (source : String)
    (intervals_ : Std.ExtTreeMap String IntervalMap) (doc : Json) :
    (intervalMembers doc).foldl (updateInterval host source) intervals_ =
      (intervalItems host doc).foldl
        (fun map item => map.insert source (pushBack (map.getD source ∅) item.1 item.2))
        intervals_ := by
  rw [intervalItems, List.foldl_flatMap]
  refine List.foldl_ext _ _ _ fun map item _ => ?_
  rw [updateInterval]
  by_cases h : rateOf host item % 60 ≠ 0
  · rw [if_pos h, if_pos h]
    rfl
  · rw [if_neg h, if_neg h, List.foldl_map]

theorem getD_foldl_insert {source : String} (items : List (UInt64 × String))
    (map : Std.ExtTreeMap String IntervalMap) (k : String) :
    (items.foldl
        (fun map item => map.insert source (pushBack (map.getD source ∅) item.1 item.2))
        map).getD k ∅ =
      if source = k then fill items (map.getD source ∅) else map.getD k ∅ := by
  induction items generalizing map with
  | nil =>
      by_cases h : source = k
      · rw [if_pos h, h]
        rfl
      · rw [if_neg h]
        rfl
  | cons item items ih =>
      rw [List.foldl_cons, ih, Std.ExtTreeMap.getD_insert_self]
      by_cases h : source = k
      · rw [if_pos h, if_pos h]
        rfl
      · rw [if_neg h, if_neg h, Std.ExtTreeMap.getD_insert,
          if_neg (Std.compare_eq_iff_eq.not.mpr h)]

theorem mem_foldl_insert {source k : String} (items : List (UInt64 × String))
    {map : Std.ExtTreeMap String IntervalMap}
    (h : k ∈ items.foldl
      (fun map item => map.insert source (pushBack (map.getD source ∅) item.1 item.2)) map) :
    k = source ∨ k ∈ map := by
  induction items generalizing map with
  | nil => exact Or.inr h
  | cons item items ih =>
      rcases ih h with rfl | hk
      · exact Or.inl rfl
      · rw [Std.ExtTreeMap.mem_insert, Std.compare_eq_iff_eq] at hk
        exact hk.imp_left Eq.symm

theorem mem_addDecoration {source name value k : String} {store : DecorationStore}
    (h : k ∈ store) : k ∈ addDecoration source name value store := by
  rw [addDecoration, Std.ExtTreeMap.mem_insert]
  exact Or.inr h

theorem mem_runQuery {sql : String → QueryData} {source query k : String} {run : DecoratorsRun}
    (h : k ∈ run.kDecorations) : k ∈ (runQuery sql source run query).kDecorations := by
  rw [runQuery]
  cases sql query with
  | nil => exact h
  | cons row rows =>
      exact List.foldlRecOn (motive := fun store : DecorationStore => k ∈ store) row.toList _ h
        fun _ hstore _ _ => mem_addDecoration hstore

theorem mem_runSources {sql : String → QueryData} {source k : String}
    {targets : Std.ExtTreeMap String (List String)} {run : DecoratorsRun}
    (h : k ∈ run.kDecorations) : k ∈ (runSources sql source targets run).kDecorations := by
  refine List.foldlRecOn (motive := fun run : DecoratorsRun => k ∈ run.kDecorations)
    targets.toList _ h fun run hrun target _ => ?_
  split
  · exact List.foldlRecOn (motive := fun run : DecoratorsRun => k ∈ run.kDecorations)
      target.2 _ hrun fun _ hrun _ _ => mem_runQuery hrun
  · exact hrun

/-- Decorators to run on load never divide, and only add decorations. -/
theorem runDecorators_load (decorators : DecoratorsHost) (time : UInt64) (source : String)
    (parser : DecoratorsParser) :
    ∃ run, runDecorators decorators .DECORATE_LOAD time source parser = some run ∧
      ∀ k ∈ parser.kDecorations, k ∈ run.kDecorations := by
  rw [runDecorators]
  by_cases h : decorators.disable_decorators = true
  · exact ⟨_, if_pos h, fun k hk => hk⟩
  · exact ⟨_, if_neg h, fun k hk => mem_runSources hk⟩

namespace Keeps

variable {force : String → Option Json} {parser : DecoratorsParser}

protected theorem setUp : Keeps host (fun _ => none) DecoratorsParser.setUp where
  intervals _ := Std.ExtTreeMap.getD_empty
  listed _ h := absurd h Std.ExtTreeMap.not_mem_empty

protected theorem clear (h : Keeps host force parser) (source : String) :
    Keeps host (Function.update force source none) (clear source parser) where
  intervals k := by
    have hget : (clear source parser).intervals_.getD k ∅ = _ :=
      getD_modify_const parser.intervals_ source k ∅
    rw [hget]
    by_cases hk : source = k
    · subst hk
      rw [if_pos rfl, Function.update_self]
      rfl
    · rw [if_neg hk, Function.update_of_ne (Ne.symm hk), h.intervals]
  listed k hk := by
    have hmem : k ∈ parser.intervals_.modify source fun _ => ∅ := hk
    rw [Std.ExtTreeMap.mem_modify] at hmem
    exact Std.ExtTreeMap.mem_insert.mpr (Or.inr (h.listed k hmem))

protected theorem update (h : Keeps host force parser) (decorators : DecoratorsHost)
    (source : String) (config : Option Json) :
    ∃ parser', parser.update host decorators source config = some parser' ∧
      Keeps host (Function.update force source config) parser' := by
  have hclear := h.clear source
  cases config with
  | none => exact ⟨_, rfl, hclear⟩
  | some doc =>
      obtain ⟨run, hrun, hmem⟩ := runDecorators_load decorators 0 source
        (updateDecorations host source doc (clear source parser))
      refine ⟨_, by rw [DecoratorsParser.update, hrun]; rfl, ⟨fun k => ?_, fun k hk => hmem k ?_⟩⟩
      · change ((intervalMembers doc).foldl (updateInterval host source)
          (clear source parser).intervals_).getD k ∅ = _
        rw [updateInterval_eq, getD_foldl_insert]
        by_cases hk : source = k
        · subst hk
          rw [if_pos rfl, hclear.intervals, Function.update_self, Function.update_self]
          rfl
        · rw [if_neg hk, hclear.intervals, Function.update_of_ne (Ne.symm hk),
            Function.update_of_ne (Ne.symm hk)]
      · have hfold : k ∈ (intervalMembers doc).foldl (updateInterval host source)
            (clear source parser).intervals_ := hk
        rw [updateInterval_eq] at hfold
        rcases mem_foldl_insert _ hfold with rfl | hold
        · exact Std.ExtTreeMap.mem_insert.mpr (Or.inl Std.compare_self)
        · exact hclear.listed k hold

theorem foldl_clear (h : Keeps host force parser) (sources : List String) :
    Keeps host (fun k => if k ∈ sources then none else force k)
      (sources.foldl (fun parser source => clear source parser) parser) := by
  induction sources generalizing force parser with
  | nil => exact h
  | cons source sources ih =>
      have hforce : (fun k => if k ∈ source :: sources then none else force k) =
          fun k => if k ∈ sources then none else Function.update force source none k := by
        funext k
        by_cases hk : k = source
        · subst hk
          simp
        · simp [hk]
      rw [hforce]
      exact ih (h.clear source)

protected theorem reset (h : Keeps host force parser) :
    Keeps host (fun _ => none) parser.reset := by
  have hclear := h.foldl_clear parser.kDecorations.keys
  refine ⟨fun k => ?_, hclear.listed⟩
  rw [DecoratorsParser.reset, hclear.intervals]
  by_cases hk : k ∈ parser.kDecorations.keys
  · rw [if_pos hk]
  · have hnot : k ∉ parser.intervals_ :=
      fun hmem => hk (Std.ExtTreeMap.mem_keys.mpr (h.listed k hmem))
    rw [if_neg hk, ← h.intervals, Std.ExtTreeMap.getD_eq_fallback hnot]
    rfl

protected theorem runSteps (host : Host) (steps : List DecoratorsStep) :
    ∃ parser, runSteps host steps = some parser ∧ Keeps host (inForce steps) parser := by
  induction steps using List.reverseRecOn with
  | nil => exact ⟨_, rfl, Keeps.setUp⟩
  | append_singleton steps step ih =>
      obtain ⟨parser, hrun, hkeeps⟩ := ih
      have hforce : inForce (steps ++ [step]) = step.inForce (inForce steps) := by
        rw [inForce, List.foldl_append]
        rfl
      have hsteps : runSteps host (steps ++ [step]) = step.run host parser := by
        rw [runSteps, List.foldlM_append, ← runSteps, hrun]
        simp
      rw [hforce, hsteps]
      cases step with
      | update decorators source config => exact hkeeps.update decorators source config
      | reset => exact ⟨_, rfl, hkeeps.reset⟩

end Keeps

/-! ### Intervals that are due -/

theorem dvd_iff_mod_eq_zero (a b : UInt64) : a.toNat ∣ b.toNat ↔ b % a = 0 := by
  rw [Nat.dvd_iff_mod_eq_zero, ← UInt64.toNat_mod, ← UInt64.toNat_inj]
  rfl

/-- A name that denotes an integer is no longer than its text up to a NUL character. -/
theorem cstr_of_keyNumber {key : String} {n : ℤ} (h : keyNumber key = some n) :
    cstr key = key := by
  refine cstr_of_no_nul fun hmem => ?_
  obtain ⟨-, hdigits, -⟩ := decimal_digits h
  rw [String.toList_ofList] at hdigits
  rw [← List.takeWhile_append_dropWhile (p := isSpace) (l := key.toList), List.mem_append] at hmem
  rcases hmem with hspace | hrest
  · exact absurd (List.mem_takeWhile_imp hspace) (by decide)
  · have hdigit : ∀ rest : List Char, '\x00' ∈ rest →
        ¬∀ c ∈ rest, c.isDigit = true := fun rest hin hall => absurd (hall _ hin) (by decide)
    rcases splitSign_cases (key.toList.dropWhile isSpace) with
      ⟨rest, heq, hsplit⟩ | ⟨rest, heq, hsplit⟩ | hsplit
    all_goals rw [hsplit] at hdigits
    · rw [heq, List.mem_cons] at hrest
      exact hdigit rest (hrest.resolve_left (by decide)) hdigits
    · rw [heq, List.mem_cons] at hrest
      exact hdigit rest (hrest.resolve_left (by decide)) hdigits
    · exact hdigit _ hrest hdigits

/-- The rate of a name that denotes a positive integer is that integer, or zero. -/
theorem rateOf_of_keyNumber {item : String × Json} {n : ℤ} (h : keyNumber item.1 = some n)
    (hpos : 0 < n) (hrate : rateOf host item ≠ 0) : ((rateOf host item).toNat : ℤ) = n := by
  have hleading : leading (String.ofList (item.1.toList.dropWhile isSpace)) = leading item.1 := by
    rw [leading, leading, String.toList_ofList, List.dropWhile_idempotent]
  have hconv := stoull_of_decimal h
  rw [stoull, hleading, ← stoull] at hconv
  rw [rateOf, valueToSize, cstr_of_keyNumber h, Core.Conversions.tryToUnsigned] at hrate ⊢
  cases hstoull : stoull item.1 with
  | error e =>
      rw [hstoull] at hrate
      exact absurd rfl hrate
  | ok m =>
      rw [hstoull] at hconv
      simp only [Except.toOption, Option.map_some, if_neg (not_lt.mpr hpos.le)] at hconv
      split at hconv
      · exact Option.some.inj hconv
      · cases hconv

theorem isDue_iff {time rate : UInt64} {key : String}
    (h : keyNumber key = some (rate.toNat : ℤ)) : IsDue time key ↔ RunsAt time rate := by
  rw [IsDue, RunsAt, h, ← dvd_iff_mod_eq_zero rate time, ← dvd_iff_mod_eq_zero 60 rate,
    ← Int.natCast_dvd_natCast, ← Int.natCast_dvd_natCast, ne_eq, ← UInt64.toNat_inj]
  simp only [Option.mem_def, Option.some.injEq, exists_eq_left', Nat.pos_iff_ne_zero,
    Int.natCast_pos]
  rfl

/-- Where no interval is read as zero, what is due runs. -/
theorem runsAt_of_isDue {time : UInt64} {item : String × Json} (h : IsDue time item.1)
    (hrate : rateOf host item ≠ 0) : keyNumber item.1 = some ((rateOf host item).toNat : ℤ) ∧
      RunsAt time (rateOf host item) := by
  have hdue := h
  obtain ⟨n, hn, hpos, -⟩ := h
  have hkey : keyNumber item.1 = some ((rateOf host item).toNat : ℤ) := by
    rw [rateOf_of_keyNumber hn hpos hrate]
    exact hn
  exact ⟨hkey, (isDue_iff hkey).mp hdue⟩

theorem mem_intervalItems {doc : Json} {rate : UInt64} {query : String} :
    (rate, query) ∈ intervalItems host doc ↔
      ∃ item ∈ intervalMembers doc,
        rateOf host item = rate ∧ rate % 60 = 0 ∧ query ∈ queryTexts item.2 := by
  rw [intervalItems, List.mem_flatMap]
  constructor
  · rintro ⟨item, hitem, hmem⟩
    split at hmem
    · cases hmem
    · rename_i hrate
      obtain ⟨q, hq, heq⟩ := List.mem_map.mp hmem
      cases heq
      exact ⟨item, hitem, rfl, not_not.mp hrate, hq⟩
  · rintro ⟨item, hitem, rfl, hrate, hquery⟩
    refine ⟨item, hitem, ?_⟩
    rw [if_neg (not_not.mpr hrate)]
    exact List.mem_map_of_mem hquery

/-- An interval with a query is kept as zero exactly where one is read as zero. -/
theorem zero_mem_intervalsOf {doc : Json} :
    0 ∈ intervalsOf host (some doc) ↔ ¬NoZeroInterval host doc := by
  rw [intervalsOf, mem_fill, NoZeroInterval]
  push Not
  constructor
  · rintro (h | ⟨⟨rate, query⟩, hmem, rfl⟩)
    · exact absurd h Std.ExtTreeMap.not_mem_empty
    · obtain ⟨item, hitem, hrate, -, hquery⟩ := mem_intervalItems.mp hmem
      exact ⟨item, hitem, hrate, List.ne_nil_of_mem hquery⟩
  · rintro ⟨item, hitem, hrate, hne⟩
    obtain ⟨query, hquery⟩ := List.exists_mem_of_ne_nil _ hne
    exact Or.inr ⟨(0, query), mem_intervalItems.mpr ⟨item, hitem, hrate, rfl, hquery⟩, rfl⟩

instance (time rate : UInt64) : Decidable (RunsAt time rate) :=
  inferInstanceAs (Decidable (_ ∧ _))

/-- The queries of the intervals that are read as a rate under which they run. -/
def ranQueries (host : Host) (time : UInt64) (doc : Json) : List String :=
  (intervalMembers doc).flatMap fun item =>
    if RunsAt time (rateOf host item) then queryTexts item.2 else []

/-- What divides the time among the intervals kept is what they are read as. -/
theorem ranAt_intervalsOf {doc : Json} (h : NoZeroInterval host doc) (time : UInt64) :
    (ranAt time (intervalsOf host (some doc))).Perm (ranQueries host time doc) := by
  have hfill := flatMap_fill_perm (intervalItems host doc) fun rate => time % rate = 0
  refine hfill.trans (List.Perm.of_eq ?_)
  rw [intervalItems, List.filter_flatMap, List.map_flatMap]
  refine List.flatMap_congr fun item hitem => ?_
  by_cases hrate : rateOf host item % 60 = 0
  · rw [if_neg (not_not.mpr hrate)]
    by_cases hzero : rateOf host item = 0
    · rw [h item hitem hzero, ite_self]
      rfl
    · by_cases hdvd : time % rateOf host item = 0
      · rw [if_pos ⟨hzero, hrate, hdvd⟩]
        simp [List.filter_map, hdvd, Function.comp_def]
      · rw [if_neg fun hruns => hdvd hruns.2.2]
        simp [List.filter_map, hdvd, Function.comp_def]
  · rw [if_pos hrate, if_neg fun hruns => hrate hruns.2.1]
    rfl

/-- Where no interval is read as zero, what runs is due exactly when every interval that runs is
named by its rate. -/
theorem ranQueries_perm_iff {doc : Json} (h : NoZeroInterval host doc) (time : UInt64) :
    (ranQueries host time doc).Perm (dueQueries time doc) ↔ NoMisreadInterval host time doc := by
  have hruns : ∀ item ∈ intervalMembers doc, queryTexts item.2 ≠ [] → IsDue time item.1 →
      keyNumber item.1 = some ((rateOf host item).toNat : ℤ) ∧ RunsAt time (rateOf host item) :=
    fun item hitem hne hdue => runsAt_of_isDue hdue fun hzero => hne (h item hitem hzero)
  constructor
  · intro hperm
    have hle : ∀ item ∈ intervalMembers doc,
        (if IsDue time item.1 then queryTexts item.2 else []).length ≤
          (if RunsAt time (rateOf host item) then queryTexts item.2 else []).length := by
      intro item hitem
      by_cases hne : queryTexts item.2 = []
      · simp [hne]
      · split
        · next hdue => rw [if_pos (hruns item hitem hne hdue).2]
        · exact Nat.zero_le _
    by_contra hbad
    rw [NoMisreadInterval] at hbad
    push Not at hbad
    obtain ⟨item, hitem, hne, hrun, hkey⟩ := hbad
    have hlt := List.sum_lt_sum _ _ hle ⟨item, hitem, by
      rw [if_neg fun hdue => hkey (hruns item hitem hne hdue).1, if_pos hrun]
      exact List.length_pos_iff.mpr hne⟩
    rw [← List.length_flatMap, ← List.length_flatMap] at hlt
    exact absurd hperm.length_eq hlt.ne'
  · refine fun hnamed => List.Perm.of_eq (List.flatMap_congr fun item hitem => ?_)
    by_cases hne : queryTexts item.2 = []
    · simp [hne]
    · have hiff : RunsAt time (rateOf host item) ↔ IsDue time item.1 :=
        ⟨fun hrun => (isDue_iff (hnamed item hitem hne hrun)).mpr hrun,
          fun hdue => (hruns item hitem hne hdue).2⟩
      simp only [hiff]

variable {force : String → Option Json} {parser : DecoratorsParser}

/-- What an entry for a source holds is kept for what is in force. -/
theorem Keeps.entry (h : Keeps host force parser) {target : String × IntervalMap}
    (htarget : target ∈ parser.intervals_.toList) :
    target.2 = intervalsOf host (force target.1) := by
  rw [← h.intervals, Std.ExtTreeMap.getD_eq_getD_getElem?,
    Std.ExtTreeMap.mem_toList_iff_getElem?_eq_some.mp htarget]
  rfl

theorem Keeps.zero_iff (h : Keeps host force parser) :
    (∃ target ∈ parser.intervals_.toList, ∃ interval ∈ target.2.toList, interval.1 = 0) ↔
      ∃ source doc, force source = some doc ∧ ¬NoZeroInterval host doc := by
  constructor
  · rintro ⟨target, htarget, interval, hinterval, hzero⟩
    have hmem : 0 ∈ intervalsOf host (force target.1) := by
      rw [← h.entry htarget, Std.ExtTreeMap.mem_iff_isSome_getElem?,
        ← hzero, Std.ExtTreeMap.mem_toList_iff_getElem?_eq_some.mp hinterval]
      rfl
    cases hforce : force target.1 with
    | none =>
        rw [hforce] at hmem
        exact absurd hmem Std.ExtTreeMap.not_mem_empty
    | some doc =>
        rw [hforce] at hmem
        exact ⟨target.1, doc, hforce, zero_mem_intervalsOf.mp hmem⟩
  · rintro ⟨source, doc, hforce, hbad⟩
    have hmem : 0 ∈ parser.intervals_.getD source ∅ := by
      rw [h.intervals, hforce]
      exact zero_mem_intervalsOf.mpr hbad
    cases hget : parser.intervals_[source]? with
    | none =>
        rw [Std.ExtTreeMap.getD_eq_getD_getElem?, hget] at hmem
        exact absurd hmem Std.ExtTreeMap.not_mem_empty
    | some intervals =>
        rw [Std.ExtTreeMap.getD_eq_getD_getElem?, hget] at hmem
        obtain ⟨queries, hqueries⟩ :=
          Option.isSome_iff_exists.mp (Std.ExtTreeMap.mem_iff_isSome_getElem?.mp hmem)
        exact ⟨(source, intervals), Std.ExtTreeMap.mem_toList_iff_getElem?_eq_some.mpr hget,
          (0, queries), Std.ExtTreeMap.mem_toList_iff_getElem?_eq_some.mpr hqueries, rfl⟩

/-- What runs for a source is what its intervals in force run. -/
theorem Keeps.group_ran (h : Keeps host force parser) (time : UInt64) (source : String) :
    (group Prod.fst (parser.intervals_.toList.flatMap
      fun target => (ranAt time target.2).map (Prod.mk target.1)) source).map Prod.snd =
        ranAt time (intervalsOf host (force source)) := by
  rw [group_flatMap_toList, List.map_map, ← h.intervals, Std.ExtTreeMap.getD_eq_getD_getElem?]
  have hsnd : (Prod.snd ∘ Prod.mk source : String → String) = id := rfl
  rw [hsnd, List.map_id]
  cases parser.intervals_[source]? <;> rfl

/-! ### The interval decorators of any sequence of updates -/

/-- A query under a name that is read as zero stops the interval decorators at every time. -/
theorem not_runsDue_of_zero {decorators : DecoratorsHost} {steps : List DecoratorsStep}
    {source : String} {doc : Json} (hdisabled : ¬decorators.disable_decorators = true)
    (hforce : inForce steps source = some doc) (hbad : ¬NoZeroInterval host doc) (time : UInt64) :
    ¬RunsDue host decorators steps time := by
  rintro ⟨parser, run, hsteps, hrun, -⟩
  obtain ⟨parser', hsteps', hkeeps⟩ := Keeps.runSteps host steps
  obtain rfl := Option.some.inj (hsteps'.symm.trans hsteps)
  obtain ⟨target, htarget, interval, hinterval, hzero⟩ :=
    hkeeps.zero_iff.mpr ⟨source, doc, hforce, hbad⟩
  have hnone := runIntervals_eq_none decorators.sql time htarget hinterval
    hzero ⟨parser'.kDecorations, []⟩
  rw [runDecorators, if_neg hdisabled, hnone] at hrun
  cases hrun

/-- Without such a query they run what their names are read as. -/
theorem exists_run_of_noZeroInterval {decorators : DecoratorsHost} {steps : List DecoratorsStep}
    (hdisabled : ¬decorators.disable_decorators = true)
    (hgood : ∀ source doc, inForce steps source = some doc → NoZeroInterval host doc)
    (time : UInt64) :
    ∃ parser run, runSteps host steps = some parser ∧
      runDecorators decorators .DECORATE_INTERVAL time "" parser = some run ∧
      ∀ source, ((group Prod.fst run.ran source).map Prod.snd).Perm
        (((inForce steps source).map (ranQueries host time)).getD []) := by
  obtain ⟨parser, hsteps, hkeeps⟩ := Keeps.runSteps host steps
  have hne : ∀ target ∈ parser.intervals_.toList, ∀ interval ∈ target.2.toList,
      interval.1 ≠ 0 := by
    intro target htarget interval hinterval hzero
    obtain ⟨source, doc, hforce, hbad⟩ :=
      hkeeps.zero_iff.mp ⟨target, htarget, interval, hinterval, hzero⟩
    exact hbad (hgood source doc hforce)
  obtain ⟨run, hrun, hran⟩ := runIntervals_of_ne_zero decorators.sql time
    hne ⟨parser.kDecorations, []⟩
  refine ⟨parser, run, hsteps, by rw [runDecorators, if_neg hdisabled, hrun], fun source => ?_⟩
  rw [hran, List.nil_append, hkeeps.group_ran]
  cases hforce : inForce steps source with
  | none => exact List.Perm.nil
  | some doc => exact ranAt_intervalsOf (hgood source doc hforce) time

/-- They run what is due exactly when what is read as a rate under which it runs is named by
it. -/
theorem runsDue_iff_noMisreadInterval {decorators : DecoratorsHost}
    {steps : List DecoratorsStep} (hdisabled : ¬decorators.disable_decorators = true)
    (hgood : ∀ source doc, inForce steps source = some doc → NoZeroInterval host doc)
    (time : UInt64) :
    RunsDue host decorators steps time ↔
      ∀ source doc, inForce steps source = some doc → NoMisreadInterval host time doc := by
  obtain ⟨parser, run, hsteps, hrun, hran⟩ :=
    exists_run_of_noZeroInterval hdisabled hgood time
  constructor
  · rintro ⟨parser', run', hsteps', hrun', hdue⟩ source doc hforce
    obtain rfl := Option.some.inj (hsteps.symm.trans hsteps')
    obtain rfl := Option.some.inj (hrun.symm.trans hrun')
    have hboth := (hran source).symm.trans (hdue source)
    rw [due, if_neg hdisabled, hforce] at hboth
    exact (ranQueries_perm_iff (hgood source doc hforce) time).mp hboth
  · refine fun hnamed => ⟨parser, run, hsteps, hrun, fun source => (hran source).trans ?_⟩
    rw [due, if_neg hdisabled]
    cases hforce : inForce steps source with
    | none => exact List.Perm.nil
    | some doc =>
        exact (ranQueries_perm_iff (hgood source doc hforce) time).mpr (hnamed source doc hforce)

/-- The decorators on intervals run as they should, without a division by zero, exactly when
they are disabled or, in the decorators that each source was last updated with, no query is under
a name that is read as zero, and a query that its name lets run has a name that denotes the rate
it is read as. -/
theorem runsDue_iff (host : Host) (decorators : DecoratorsHost) (steps : List DecoratorsStep)
    (time : UInt64) :
    RunsDue host decorators steps time ↔
      decorators.disable_decorators = true ∨
        ∀ source doc, inForce steps source = some doc →
          NoZeroInterval host doc ∧ NoMisreadInterval host time doc := by
  by_cases hdisabled : decorators.disable_decorators = true
  · obtain ⟨parser, hsteps, -⟩ := Keeps.runSteps host steps
    refine iff_of_true ⟨parser, _, hsteps, if_pos hdisabled, fun source => ?_⟩ (Or.inl hdisabled)
    rw [due, if_pos hdisabled]
    exact List.Perm.nil
  · rw [or_iff_right hdisabled]
    constructor
    · intro h
      have hgood : ∀ source doc, inForce steps source = some doc → NoZeroInterval host doc := by
        intro source doc hforce
        by_contra hbad
        exact not_runsDue_of_zero hdisabled hforce hbad time h
      exact fun source doc hforce => ⟨hgood source doc hforce,
        (runsDue_iff_noMisreadInterval hdisabled hgood time).mp h source doc hforce⟩
    · intro h
      exact (runsDue_iff_noMisreadInterval hdisabled
        (fun source doc hforce => (h source doc hforce).1) time).mpr
          fun source doc hforce => (h source doc hforce).2

/-- A name that is no numeral. -/
def hourlyDecorators : Json :=
  .obj [("interval", .obj [("hourly", .arr [.str "SELECT 1 AS one"])])]

/-- An interval named by a word, updated once, at a time the scheduler passes. -/
theorem not_runsDue_hourly :
    ¬RunsDue ⟨0, true, true, "linux", "3.3.2", fun _ _ => 0⟩ ⟨false, fun _ => []⟩
      [.update ⟨false, fun _ => []⟩ "osquery.conf" (some hourlyDecorators)] 3600 := by
  have hforce : inForce [.update ⟨false, fun _ => []⟩ "osquery.conf" (some hourlyDecorators)]
      "osquery.conf" = some hourlyDecorators := by
    rw [inForce, List.foldl_cons, List.foldl_nil, DecoratorsStep.inForce, Function.update_self]
  refine not_runsDue_of_zero (by decide) hforce (fun h => ?_) 3600
  have hempty := h ("hourly", .arr [.str "SELECT 1 AS one"]) (List.mem_singleton_self _)
    (by decide +kernel)
  have hqueries : queryTexts (.arr [.str "SELECT 1 AS one"]) = ["SELECT 1 AS one"] := by
    decide +kernel
  exact absurd (hqueries.symm.trans hempty) (List.cons_ne_nil _ _)

end Osquery.Config
