import Osquery.Tables.Cache

/-!
# The age of cached rows

The cache of a table stays fresh for the interval of the query that filled it. A query of
a shorter interval that reads it meanwhile is not asked for its own interval: it gets rows
that are as old as its interval, or older, from the step on at which that interval has
passed and up to the one at which the longer interval has.

## Implementation notes

The scheduler runs a query at the multiples of its splayed interval and passes that step
and that interval. Nothing but the queries of the table changes its entry here.
-/

namespace Osquery.Tables

open Foundation.JsonText Core.BackingStore Core.Rows

section Runs

variable (json : JsonLibrary) (disable_caching : Bool) (plugin : TablePlugin) (name : String)

/-- Rows of the cache were generated less than the reader's interval ago. -/
def Fresh (s : History) : Event → Prop
  | .query request =>
      isCached disable_caching plugin request.kCacheStep request.context s.table = true →
        ∀ source, s.source = some source →
          request.kCacheStep.toNat < source.kCacheStep.toNat + request.kCacheInterval.toNat
  | .others _ => True

/-- A query that reads the cache gets the rows that the source generated. -/
def Served (s : History) : Event → Prop
  | .query request =>
      isCached disable_caching plugin request.kCacheStep request.context s.table = true →
        ∃ source, s.source = some source ∧
          (generate json disable_caching plugin name request s.table).2 =
            source.generated.map jsonRow
  | .others _ => True

/-- The query may not use the cache, or its step is outside the time that is within the
stored interval and no longer within its own. -/
def InTime (s : History) : Event → Prop
  | .query request =>
      disable_caching = false → cacheAllowed plugin.columns request.context = true →
        ¬(s.table.last_cached.toNat + request.kCacheInterval.toNat ≤ request.kCacheStep.toNat ∧
          request.kCacheStep < s.table.last_cached + s.table.last_interval)
  | .others _ => True

/-- What a table remembers is about the query whose rows it stored last. -/
structure Stamped (s : History) : Prop where
  unset : s.source = none → s.table.last_cached + s.table.last_interval = 0
  step : ∀ source, s.source = some source → s.table.last_cached = source.kCacheStep
  stored : ∀ source, s.source = some source →
    lookup s.table.db kQueries ("cache." ++ name) =
      some (serializeQueryDataJSON json source.generated)

theorem Stamped.start (db : Database) : Stamped json name (History.start db) := by
  constructor
  · intro _
    rfl
  · intro source hsource
    cases hsource
  · intro source hsource
    cases hsource

theorem Stamped.query {s : History} (h : Stamped json name s) (request : Request) :
    Stamped json name (happen json disable_caching plugin name s (.query request)) := by
  rw [happen, generate, origin]
  cases hcached : isCached disable_caching plugin request.kCacheStep request.context s.table with
  | true => simpa using h
  | false =>
      cases hallowed : disable_caching || !cacheAllowed plugin.columns request.context with
      | true => simpa [setCache, hallowed] using h
      | false =>
          simp only [Bool.false_eq_true, if_false, setCache, hallowed]
          constructor
          · intro hnone
            cases hnone
          · intro source hsource
            cases hsource
            rfl
          · intro source hsource
            cases hsource
            simp

theorem isCached_iff {step : UInt64} {ctx : QueryContext} {s : CachedTable} :
    isCached disable_caching plugin step ctx s = true ↔
      disable_caching = false ∧ cacheAllowed plugin.columns ctx = true ∧
        step < s.last_cached + s.last_interval := by
  rw [isCached]
  cases disable_caching with
  | true => simp
  | false => simp [and_comm]

theorem Stamped.source_of_cached {s : History} (h : Stamped json name s) {request : Request}
    (hcached :
      isCached disable_caching plugin request.kCacheStep request.context s.table = true) :
    ∃ source, s.source = some source := by
  cases hsource : s.source with
  | some source => exact ⟨source, rfl⟩
  | none =>
      rw [not_isCached_of_unset disable_caching plugin (h.unset hsource)] at hcached
      cases hcached

theorem Stamped.served {s : History} (h : Stamped json name s) (request : Request) :
    Served json disable_caching plugin name s (.query request) := by
  intro hcached
  obtain ⟨source, hsource⟩ := h.source_of_cached json disable_caching plugin name hcached
  use source, hsource
  rw [generate, if_pos hcached]
  exact getCache_of_stored json name (h.stored source hsource)

theorem Stamped.fresh_iff {s : History} (h : Stamped json name s) (request : Request) :
    Fresh disable_caching plugin s (.query request) ↔
      InTime disable_caching plugin s (.query request) := by
  constructor
  · rintro hfresh henabled hallowed ⟨hold, hstep⟩
    have hcached := (isCached_iff disable_caching plugin).mpr ⟨henabled, hallowed, hstep⟩
    obtain ⟨source, hsource⟩ := h.source_of_cached json disable_caching plugin name hcached
    have hage := hfresh hcached source hsource
    rw [← h.step source hsource] at hage
    omega
  · intro htime hcached source hsource
    obtain ⟨henabled, hallowed, hstep⟩ := (isCached_iff disable_caching plugin).mp hcached
    have hyoung := htime henabled hallowed
    rw [h.step source hsource] at hyoung hstep
    by_contra hold
    exact hyoung ⟨by omega, hstep⟩

/-- A property of the queries that follows from what a table remembers holds in every run
of queries. -/
theorem Stamped.throughout {P : History → Event → Prop}
    (hP : ∀ s, Stamped json name s → ∀ request, P s (.query request))
    (requests : List Request) {s : History} (h : Stamped json name s) :
    Throughout json disable_caching plugin name P (requests.map .query) s := by
  induction requests generalizing s with
  | nil => trivial
  | cons request requests ih =>
      exact ⟨hP s h request, ih (h.query json disable_caching plugin name request)⟩

theorem Throughout.mono {P Q : History → Event → Prop} {events : List Event} {s : History}
    (h : Throughout json disable_caching plugin name P events s)
    (hPQ : Throughout json disable_caching plugin name (fun s event => P s event → Q s event)
      events s) :
    Throughout json disable_caching plugin name Q events s := by
  induction events generalizing s with
  | nil => trivial
  | cons event events ih => exact ⟨hPQ.1 h.1, ih h.2 hPQ.2⟩

/-- In every run of queries the rows of the cache are those of the source, and they are
younger than the intervals of their readers exactly when every reader is in time. -/
theorem cached_rows_fresh_iff (requests : List Request) (db : Database) :
    Throughout json disable_caching plugin name (Served json disable_caching plugin name)
        (requests.map .query) (History.start db) ∧
      (Throughout json disable_caching plugin name (Fresh disable_caching plugin)
          (requests.map .query) (History.start db) ↔
        Throughout json disable_caching plugin name (InTime disable_caching plugin)
          (requests.map .query) (History.start db)) := by
  have hstart := Stamped.start json name db
  refine ⟨?_, ?_, ?_⟩
  · exact Stamped.throughout json disable_caching plugin name
      (fun s hs request => hs.served json disable_caching plugin name request) requests hstart
  · intro hfresh
    apply hfresh.mono
    exact Stamped.throughout json disable_caching plugin name
      (fun s hs request => (hs.fresh_iff json disable_caching plugin name request).mp)
      requests hstart
  · intro htime
    apply htime.mono
    exact Stamped.throughout json disable_caching plugin name
      (fun s hs request => (hs.fresh_iff json disable_caching plugin name request).mpr)
      requests hstart

end Runs

/-! ### An hourly query and one of every minute -/

/-- The query runs at a step that its interval divides. -/
def Request.Scheduled (request : Request) : Prop :=
  0 < request.kCacheInterval ∧ request.kCacheStep % request.kCacheInterval = 0

def hourlyRequest : Request := { sizeRequest with kCacheStep := 3600, kCacheInterval := 3600 }

def minutelyRequest : Request := { sizeRequest with kCacheStep := 3660 }

/-- One minute after the hourly query, and still 59 minutes later, the other one would get
the rows of the former. -/
theorem stale_rows_served :
    ¬∀ (requests : List Request) (db : Database),
      requests.IsChain (fun earlier later => earlier.kCacheStep ≤ later.kCacheStep) →
        (∀ request ∈ requests, request.Scheduled) →
          Throughout reference false pidAndSize "processes" (Fresh false pidAndSize)
            (requests.map .query) (History.start db) := by
  intro hall
  have hscheduled : ∀ request ∈ [hourlyRequest, minutelyRequest], request.Scheduled := by
    intro request hrequest
    simp only [List.mem_cons, List.not_mem_nil, or_false] at hrequest
    obtain rfl | rfl := hrequest
    · exact ⟨by decide, by decide⟩
    · exact ⟨by decide, by decide⟩
  have hsteps : [hourlyRequest, minutelyRequest].IsChain
      (fun earlier later => earlier.kCacheStep ≤ later.kCacheStep) := by
    refine List.IsChain.cons_cons ?_ (List.IsChain.singleton _)
    decide
  obtain ⟨_, hfresh, _⟩ := hall _ ∅ hsteps hscheduled
  have hage := hfresh (by decide) hourlyRequest rfl
  revert hage
  decide

end Osquery.Tables
