import Osquery.EventSubscribers.Delivery

/-!
# The schedule and its readers

After a configuration change the event factory counts, for every subscriber,
the scheduled queries that read its table. Expiry waits until as many different
queries have selected from the subscriber. Which queries run is decided anew
before every launch: a pack may become active and a query may leave the
blacklist after the queries were counted.

## Implementation notes

Whether a pack executes is a field of the pack; its discovery queries change it
between the steps of a run. The tables of a query come from the SQL planner,
which is a parameter. The blacklist is saved in the database under a key that
no modelled function reads, so saving it is left out.
-/

namespace Osquery.EventSubscribers

open Foundation.AtomicProgram Foundation.JsonText Foundation.Numeral Foundation.Separated
open Foundation.Grouping Core.BackingStore Core.Conversions Core.Rows

/-! ### Configuration -/

/-- A scheduled query, with its option not to be blacklisted. -/
structure ScheduledQuery where
  query : String
  interval : UInt64
  blacklist : Option Bool := none
  deriving DecidableEq

/-- A pack of queries, and whether it executes at the moment. -/
structure Pack where
  name : String
  active : Bool
  schedule : List (String × ScheduledQuery)

/-- The time at which a query leaves the blacklist. -/
abbrev Blacklist := Std.ExtTreeMap String UInt64

structure Schedule where
  packs : List Pack
  blacklist : Blacklist

/-- What the process fixes: the delimiter of pack names and the planner. -/
structure Planner where
  pack_delimiter : String
  getQueryTables : String → Option (List String)

def blacklistExpired (now blt : UInt64) (query : ScheduledQuery) : Bool :=
  now > blt || query.blacklist = some false

/-- The name of a scheduled query may be synthetic. -/
def scheduledName (delimiter : String) (pack : Pack) (name : String) : String :=
  if pack.name ≠ "main" then "pack" ++ delimiter ++ pack.name ++ delimiter ++ name else name

/-- A query is listed unless it is blacklisted; it leaves the blacklist when its
time has passed. -/
def visitQuery (now : UInt64) (blacklisted : Bool)
    (found : List (String × ScheduledQuery) × Blacklist) (name : String) (query : ScheduledQuery) :
    List (String × ScheduledQuery) × Blacklist :=
  match found.2[name]? with
  | none => (found.1 ++ [(name, query)], found.2)
  | some blt =>
      if blacklistExpired now blt query then
        (found.1 ++ [(name, query)], found.2.erase name)
      else if blacklisted then (found.1 ++ [(name, query)], found.2)
      else found

/-- The queries of the packs that execute, and the blacklist that remains. -/
def scheduledQueries (delimiter : String) (now : UInt64) (blacklisted : Bool)
    (schedule : Schedule) : List (String × ScheduledQuery) × Blacklist :=
  (schedule.packs.filter Pack.active).foldl (fun found pack =>
    pack.schedule.foldl (fun found it =>
      visitQuery now blacklisted found (scheduledName delimiter pack it.1) it.2) found)
    ([], schedule.blacklist)

/-- The details of a subscriber that are used to set its minimum expiration. -/
structure SubscriberExpirationDetails where
  max_interval : UInt64 := 0
  query_count : ℕ := 0

section Factory

variable (planner : Planner) (sub : Subscriber)

/-- The planner lists the table of the subscriber for the query. -/
def readsSubscriber (query : ScheduledQuery) : Bool :=
  match planner.getQueryTables query.query with
  | none => false
  | some tables => tables.contains sub.name

/-- One more query that reads the subscriber. -/
def SubscriberExpirationDetails.count (details : SubscriberExpirationDetails)
    (query : ScheduledQuery) : SubscriberExpirationDetails :=
  { max_interval :=
      if query.interval > details.max_interval then query.interval else details.max_interval
    query_count := details.query_count + 1 }

/-- The names of the scheduled queries that read the subscriber. -/
def readers (queries : List (String × ScheduledQuery)) : List (String × ScheduledQuery) :=
  queries.filter fun q => readsSubscriber planner sub q.2

/-- A subscriber that no scheduled query reads has no details. -/
def subscriberDetails (queries : List (String × ScheduledQuery)) :
    Option SubscriberExpirationDetails :=
  match readers planner sub queries with
  | [] => none
  | first :: rest => some ((first :: rest).foldl (fun d q => d.count q.2) {})

/-- The members after the queries were counted. -/
def Members.configUpdate (details : SubscriberExpirationDetails) (m : Members) : Members :=
  { m with
    minExpiration := details.max_interval * 3 + (60 - details.max_interval * 3 % 60)
    queryCount := details.query_count
    queries := ∅ }

/-- The subscriber and the schedule. -/
structure World where
  state : State
  schedule : Schedule

def configUpdate (now : UInt64) (w : World) : World :=
  let found := scheduledQueries planner.pack_delimiter now false w.schedule
  { state := match subscriberDetails planner sub found.1 with
      | none => w.state
      | some details => ⟨w.state.db, w.state.members.configUpdate details⟩
    schedule := { w.schedule with blacklist := found.2 } }

end Factory

/-! ### Launching queries -/

/-- The scheduler walks over the queries of its schedule; the marker is cleared
when the performance was recorded. -/
def launchQuery (p : Process) (sub : Subscriber) (name : String) (constraints : List Constraint)
    (recorded : Bool) (now now' : EventTime) : Prog Access (List Row) := do
  let _ ← setDatabaseValue kPersistentSettings kExecutingQuery name
  let rows ← genTable p sub constraints now now'
  if recorded then
    let _ ← setDatabaseValue kPersistentSettings kExecutingQuery ""
  return rows

section Runs

variable (p : Process) (sub : Subscriber) (planner : Planner)

/-- Runs of the scheduler and of the configuration. A run carries the names of
the queries that the last `configUpdate` counted for the subscriber, and of
those that have selected from it since. `permitted` restricts the launches
without a time constraint. -/
inductive ScheduleRun (permitted : List String → String → Prop) :
    World → List String → Finset String → Prop
  | start (schedule : Schedule) : ScheduleRun permitted ⟨initial, schedule⟩ [] ∅
  | reconfigure {w : World} {counted : List String} {selected : Finset String}
      (h : ScheduleRun permitted w counted selected) (packs : List Pack) :
      ScheduleRun permitted ⟨w.state, { w.schedule with packs }⟩ counted selected
  | configUpdate {w : World} {counted : List String} {selected : Finset String} (now : UInt64)
      (h : ScheduleRun permitted w counted selected)
      (hnames : ((scheduledQueries planner.pack_delimiter now false w.schedule).1.map
        Prod.fst).Nodup) :
      ScheduleRun permitted (EventSubscribers.configUpdate planner sub now w)
        ((readers planner sub
          (scheduledQueries planner.pack_delimiter now false w.schedule).1).map Prod.fst) ∅
  | launch {w : World} {counted : List String} {selected : Finset String}
      (name : String) (query : ScheduledQuery) (constraints : List Constraint) (recorded : Bool)
      (visited : UInt64) (now now' : EventTime) (h : ScheduleRun permitted w counted selected)
      (hscheduled : (name, query) ∈
        (scheduledQueries planner.pack_delimiter visited false w.schedule).1)
      (hreads : readsSubscriber planner sub query = true)
      (hpermitted : constraints = [] → permitted counted name) :
      ScheduleRun permitted
        ⟨((launchQuery p sub name constraints recorded now now').run w.state).2,
          { w.schedule with
            blacklist := (scheduledQueries planner.pack_delimiter visited false w.schedule).2 }⟩
        counted (insert name selected)
  | addBatch {w : World} {counted : List String} {selected : Finset String}
      (h : ScheduleRun permitted w counted selected) (rows : List Row) (custom now : EventTime) :
      ScheduleRun permitted
        ⟨((EventSubscribers.addBatch p sub rows custom now).run w.state).2, w.schedule⟩
        counted selected

end Runs

variable {p : Process} {sub : Subscriber} {planner : Planner} {s : State} {log : EventLog}

/-! ### Counting -/

theorem foldl_count (queries : List (String × ScheduledQuery))
    (details : SubscriberExpirationDetails) :
    (queries.foldl (fun d q => d.count q.2) details).query_count =
      details.query_count + queries.length := by
  induction queries generalizing details with
  | nil => rfl
  | cons q rest ih =>
      rw [List.foldl_cons, ih, List.length_cons]
      change details.query_count + 1 + rest.length = _
      omega

/-- The details count the queries that read the subscriber. -/
theorem subscriberDetails_count {queries : List (String × ScheduledQuery)}
    {details : SubscriberExpirationDetails}
    (h : subscriberDetails planner sub queries = some details) :
    details.query_count = (readers planner sub queries).length := by
  rw [subscriberDetails] at h
  cases hreaders : readers planner sub queries with
  | nil => simp [hreaders] at h
  | cons first rest =>
      rw [hreaders] at h
      obtain rfl := Option.some.inj h
      exact (foldl_count (first :: rest) {}).trans (Nat.zero_add _)

theorem subscriberDetails_eq_none {queries : List (String × ScheduledQuery)}
    (h : subscriberDetails planner sub queries = none) : readers planner sub queries = [] := by
  rw [subscriberDetails] at h
  cases hreaders : readers planner sub queries with
  | nil => rfl
  | cons first rest => simp [hreaders] at h

/-! ### What a launch does to the schedule fields -/

theorem Stored.markExecuting (h : Stored sub s log) (name : String) :
    Stored sub ⟨EventSubscribers.markExecuting s.db name, s.members⟩ log :=
  ⟨h.represents.of_valueAt (valueAt_markExecuting _ _ _) fun _ => valueAt_markExecuting _ _ _,
    h.bounded, h.wholeMinute⟩

/-- A table is generated without a change of the count; the executing query is
added at most, and only without a time constraint. -/
theorem genTable_schedule (p : Process) (h : Stored sub s log) (constraints : List Constraint)
    (now now' : EventTime) :
    ((genTable p sub constraints now now').run s).2.members.queryCount = s.members.queryCount ∧
      (((genTable p sub constraints now now').run s).2.members.queries = s.members.queries ∨
        constraints = [] ∧ ((genTable p sub constraints now now').run s).2.members.queries ⊆
          insert (executing s.db) s.members.queries) := by
  obtain ⟨start, stop, m, hrun, hm⟩ := run_genTable p sub constraints now now' s
  rw [hrun]
  rcases hm with rfl | ⟨hc, rfl⟩
  · obtain ⟨db₁, -, hget⟩ := run_get p h.represents h.wholeMinute start stop now'
    rw [hget]
    exact ⟨rfl, Or.inl rfl⟩
  · have hscan := h.beginScan s.db now
    obtain ⟨db₁, -, hget⟩ := run_get p hscan.represents hscan.wholeMinute start stop now'
    rw [hget]
    refine ⟨rfl, Or.inr ⟨hc, ?_⟩⟩
    change (if executing s.db ≠ "" then insert (executing s.db) s.members.queries
      else s.members.queries) ⊆ _
    split
    · exact Finset.Subset.refl _
    · exact Finset.subset_insert _ _

/-- A launch adds at most its own name, and only without a time constraint. -/
theorem launchQuery_schedule (p : Process) (h : Stored sub s log) (name : String)
    (constraints : List Constraint) (recorded : Bool) (now now' : EventTime) :
    ∃ s', ((launchQuery p sub name constraints recorded now now').run s).2 = s' ∧
      (∃ log', Stored sub s' log') ∧ s'.members.queryCount = s.members.queryCount ∧
      (s'.members.queries = s.members.queries ∨
        constraints = [] ∧ s'.members.queries ⊆ insert name s.members.queries) := by
  have hmark : (setDatabaseValue kPersistentSettings kExecutingQuery name : Prog Access _).run s =
      (.ok (), ⟨markExecuting s.db name, s.members⟩) := rfl
  obtain ⟨log', hstored⟩ := stored_genTable p (h.markExecuting name) constraints now now'
  have hschedule := genTable_schedule p (h.markExecuting name) constraints now now'
  rw [executing_markExecuting] at hschedule
  refine ⟨_, rfl, ?_⟩
  rw [launchQuery, Prog.run_bind, hmark, Prog.run_bind]
  cases recorded with
  | false => exact ⟨⟨log', hstored⟩, hschedule⟩
  | true => exact ⟨⟨log', hstored.markExecuting ""⟩, hschedule⟩

/-! ### Expiry waits for the counted queries -/

/-- The names that were noted are counted queries that have selected. -/
structure Noted (sub : Subscriber) (s : State) (counted : List String) (selected : Finset String) :
    Prop where
  stored : ∃ log, Stored sub s log
  distinct : counted.Nodup
  count : counted ≠ [] → s.members.queryCount = counted.length
  noted : counted ≠ [] → ∀ name ∈ s.members.queries, name ∈ counted ∧ name ∈ selected

/-- An unconstrained launch is permitted to the counted queries, and to all when
no query was counted. -/
def CountedOnly (counted : List String) (name : String) : Prop := counted = [] ∨ name ∈ counted

theorem noted_configUpdate {w : World} {counted : List String} {selected : Finset String}
    (h : Noted sub w.state counted selected) (now : UInt64)
    (hnames : ((scheduledQueries planner.pack_delimiter now false w.schedule).1.map
      Prod.fst).Nodup) :
    Noted sub (configUpdate planner sub now w).state
      ((readers planner sub
        (scheduledQueries planner.pack_delimiter now false w.schedule).1).map Prod.fst) ∅ := by
  obtain ⟨log, hlog⟩ := h.stored
  have hdistinct := hnames.sublist
    (List.Sublist.map Prod.fst (List.filter_sublist (p := fun q => readsSubscriber planner sub q.2)))
  cases hdetails : subscriberDetails planner sub
      (scheduledQueries planner.pack_delimiter now false w.schedule).1 with
  | none =>
      have hnil := subscriberDetails_eq_none hdetails
      have hstate : (configUpdate planner sub now w).state = w.state := by
        simp [configUpdate, hdetails]
      rw [hstate]
      refine ⟨⟨log, hlog⟩, hdistinct, ?_, ?_⟩
      · intro hne
        exact absurd (by rw [hnil]; rfl) hne
      · intro hne
        exact absurd (by rw [hnil]; rfl) hne
  | some details =>
      have hstate : (configUpdate planner sub now w).state =
          ⟨w.state.db, w.state.members.configUpdate details⟩ := by
        simp [configUpdate, hdetails]
      rw [hstate]
      refine ⟨⟨log, hlog.represents, hlog.bounded, hlog.wholeMinute⟩, hdistinct, ?_, ?_⟩
      · intro _
        rw [List.length_map]
        exact subscriberDetails_count hdetails
      · intro _ name hname
        exact absurd hname (Finset.notMem_empty name)

theorem ScheduleRun.noted {w : World} {counted : List String} {selected : Finset String}
    (h : ScheduleRun p sub planner CountedOnly w counted selected) :
    Noted sub w.state counted selected := by
  induction h with
  | start schedule =>
      exact ⟨⟨_, stored_initial sub⟩, List.nodup_nil, fun hne => absurd rfl hne,
        fun hne => absurd rfl hne⟩
  | reconfigure _ packs ih => exact ih
  | configUpdate now _ hnames ih => exact noted_configUpdate ih now hnames
  | @launch w counted selected name query constraints recorded visited now now' _ _ _ hpermitted
      ih =>
      obtain ⟨log, hlog⟩ := ih.stored
      obtain ⟨s', hs', hstored, hcount, hqueries⟩ :=
        launchQuery_schedule p hlog name constraints recorded now now'
      rw [hs']
      refine ⟨hstored, ih.distinct, fun hne => hcount.trans (ih.count hne), ?_⟩
      intro hne q hq
      have hold : ∀ q ∈ w.state.members.queries, q ∈ counted ∧ q ∈ insert name selected :=
        fun q hq => ⟨(ih.noted hne q hq).1, Finset.mem_insert_of_mem (ih.noted hne q hq).2⟩
      rcases hqueries with hsame | ⟨hnone, hsub⟩
      · rw [hsame] at hq
        exact hold q hq
      · rcases Finset.mem_insert.mp (hsub hq) with rfl | hq
        · exact ⟨(hpermitted hnone).resolve_left hne, Finset.mem_insert_self _ _⟩
        · exact hold q hq
  | addBatch _ rows custom now ih =>
      obtain ⟨log, hlog⟩ := ih.stored
      obtain ⟨log', hgrown⟩ := grown_addBatch p hlog rows custom now
      refine ⟨⟨log', hgrown.stored⟩, ih.distinct, ?_, ?_⟩
      · intro hne
        exact hgrown.schedule.1.trans (ih.count hne)
      · intro hne name hname
        rw [hgrown.schedule.2] at hname
        exact ih.noted hne name hname

/-- When only counted queries select without a time constraint, expiry waits
until all of them have selected since they were counted. -/
theorem executedAllQueries_waits {w : World} {counted : List String} {selected : Finset String}
    (h : ScheduleRun p sub planner CountedOnly w counted selected)
    (hall : (executedAllQueries.run w.state).1 = true) : ∀ name ∈ counted, name ∈ selected := by
  intro name hname
  have hnoted := h.noted
  have hne : counted ≠ [] := List.ne_nil_of_mem hname
  rw [run_executedAllQueries] at hall
  have hcard : w.state.members.queryCount ≤ w.state.members.queries.card :=
    of_decide_eq_true hall
  rw [hnoted.count hne, ← List.toFinset_card_of_nodup hnoted.distinct] at hcard
  have hsub : w.state.members.queries ⊆ counted.toFinset := by
    intro q hq
    exact List.mem_toFinset.mpr (hnoted.noted hne q hq).1
  have heq := Finset.eq_of_subset_of_card_le hsub hcard
  have hmem : name ∈ w.state.members.queries := by
    rw [heq]
    exact List.mem_toFinset.mpr hname
  exact (hnoted.noted hne name hmem).2

/-! ### A pack that becomes active -/

/-- A planner that knows one query. -/
def samplePlanner : Planner :=
  ⟨"_", fun query => if query = "SELECT * FROM name" then some ["name"] else none⟩

def sampleQuery : ScheduledQuery := { query := "SELECT * FROM name", interval := 60 }

/-- Two packs with one query each; the second pack may be inactive. -/
def samplePacks (active : Bool) : List Pack :=
  [⟨"main", true, [("a", sampleQuery)]⟩, ⟨"p", active, [("b", sampleQuery)]⟩]

/-- The queries are counted while the second pack is inactive. -/
theorem sample_counted (permitted : List String → String → Prop) :
    ScheduleRun sampleProcess sampleSubscriber samplePlanner permitted
      (configUpdate samplePlanner sampleSubscriber 1 ⟨initial, ⟨samplePacks false, ∅⟩⟩) ["a"] ∅ :=
  .configUpdate 1 (.start ⟨samplePacks false, ∅⟩) (by decide +kernel)

/-- Expiry may start once the counted query has selected. -/
theorem executedAllQueries_waits_one_reader : ∃ w, ScheduleRun sampleProcess sampleSubscriber
      samplePlanner CountedOnly w ["a"] {"a"} ∧ (executedAllQueries.run w.state).1 = true ∧
        ∀ name ∈ ["a"], name ∈ ({"a"} : Finset String) := by
  have hrun := (sample_counted CountedOnly).launch "a" sampleQuery [] true 100 100 100
    (by decide +kernel) (by decide +kernel)
    fun _ => Or.inr List.mem_cons_self
  have hall : (executedAllQueries.run ((launchQuery sampleProcess sampleSubscriber "a" [] true 100
      100).run (configUpdate samplePlanner sampleSubscriber 1
        ⟨initial, ⟨samplePacks false, ∅⟩⟩).state).2).1 = true := by decide +kernel
  exact ⟨_, hrun, hall, executedAllQueries_waits hrun hall⟩

/-- A query of a pack that became active later takes the place of the counted one. -/
theorem executedAllQueries_too_early :
    ¬∀ (p : Process) (sub : Subscriber) (planner : Planner) (w : World) (counted : List String)
      (selected : Finset String),
        ScheduleRun p sub planner (fun _ _ => True) w counted selected →
          (executedAllQueries.run w.state).1 = true → ∀ name ∈ counted, name ∈ selected := by
  intro h
  have hrun := ((sample_counted fun _ _ => True).reconfigure (samplePacks true)).launch
    "pack_p_b" sampleQuery [] true 100 100 100
    (by decide +kernel) (by decide +kernel) fun _ => trivial
  have hall : (executedAllQueries.run ((launchQuery sampleProcess sampleSubscriber "pack_p_b" [] true
      100 100).run (configUpdate samplePlanner sampleSubscriber 1
        ⟨initial, ⟨samplePacks false, ∅⟩⟩).state).2).1 = true := by decide +kernel
  have hmem := h _ _ _ _ _ _ hrun hall "a" List.mem_cons_self
  exact absurd hmem (by decide)

end Osquery.EventSubscribers
