import Osquery.Core.BackingStore
import Osquery.Tables.VirtualTable

/-!
# The cache of a table

A cacheable table stores the rows that its generator returned, with the step and the
interval of the schedule. Until the interval has passed, a query that asks for the
cache and has no constraint on an indexed column gets the stored rows. They are the
rows of an earlier query, filled for the columns that it used: a later query gets all
the columns that it uses exactly when they were filled then.

## Implementation notes

The rows that the generator would return for a query, and the same rows with every
column, are inputs of the query; the second is what filled columns are compared with.
The database may change between two queries. An entry that is missing is read as the
empty text, which is no document. A context has an entry for every column.
-/

namespace Osquery.Tables

open Foundation.JsonText Core.BackingStore Core.Rows

/-- The options of a column whose constraints a generator may use. -/
def ColumnOptions.uncachable (options : ColumnOptions) : Bool :=
  options.index || options.required || options.additional || options.optimized

def cacheAllowed (cols : List Column) (ctx : QueryContext) : Bool :=
  ctx.useCache &&
    cols.all fun column => !(column.options.uncachable && ctx.constraintsOn column.name ≠ [])

/-- The rows of an array up to the first entry that is no object. -/
def deserializeRowList : List Json → QueryData → QueryData
  | [], qd => qd
  | i :: rest, qd =>
      match deserializeRow i with
      | .error _ => qd
      | .ok r => deserializeRowList rest (qd ++ [r])

/-- What a table remembers of its cache, and the database. -/
structure CachedTable where
  last_cached : UInt64
  last_interval : UInt64
  db : Database

section Plugin

variable (json : JsonLibrary) (disable_caching : Bool) (plugin : TablePlugin) (name : String)

def isCached (step : UInt64) (ctx : QueryContext) (s : CachedTable) : Bool :=
  if disable_caching then false
  else step < s.last_cached + s.last_interval && cacheAllowed plugin.columns ctx

def getCache (s : CachedTable) : QueryData :=
  match lookup s.db kQueries ("cache." ++ name) with
  | none => []
  | some content =>
      match json.parse (cstr content) with
      | some (.arr items) => deserializeRowList items []
      | _ => []

def setCache (step interval : UInt64) (ctx : QueryContext) (results : QueryData)
    (s : CachedTable) : CachedTable :=
  if disable_caching || !cacheAllowed plugin.columns ctx then s
  else
    { last_cached := step
      last_interval := interval
      db := Ephemeral.setValue s.db kQueries ("cache." ++ name)
        (serializeQueryDataJSON json results) }

/-- A query for a table at a step of the schedule. -/
structure Request where
  kCacheStep : UInt64
  kCacheInterval : UInt64
  context : QueryContext
  generated : QueryData
  full : QueryData

def generate (request : Request) (s : CachedTable) : CachedTable × QueryData :=
  if isCached disable_caching plugin request.kCacheStep request.context s then
    (s, getCache json name s)
  else
    (setCache json disable_caching plugin name request.kCacheStep request.kCacheInterval
      request.context request.generated s, request.generated)

end Plugin

/-- A query, or a change of the database by others. -/
inductive Event
  | query (request : Request)
  | others (change : Database → Database)

/-- A table with the query whose rows it stored last. -/
structure History where
  table : CachedTable
  source : Option Request

/-- The generator filled a column in all its rows. -/
def Request.FillsColumn (request : Request) (column : String) : Prop :=
  ∀ (i : ℕ) (row fullRow : Row),
    request.generated[i]? = some row → request.full[i]? = some fullRow →
      ∃ value, row[column]? = some value ∧ fullRow[column]? = some value

/-- The generator filled at least the columns that are marked as used. -/
structure Request.Fills (plugin : TablePlugin) (request : Request) : Prop where
  rows : request.generated.length = request.full.length
  used : ∀ column ∈ plugin.columns, request.context.isColumnUsed column.name = true →
    request.FillsColumn column.name

section Runs

variable (json : JsonLibrary) (disable_caching : Bool) (plugin : TablePlugin) (name : String)

/-- The query whose generated rows a query gets. -/
def origin (request : Request) (s : History) : Option Request :=
  if isCached disable_caching plugin request.kCacheStep request.context s.table then s.source
  else some request

def happen (s : History) : Event → History
  | .query request =>
      { table := (generate json disable_caching plugin name request s.table).1
        source :=
          if disable_caching || !cacheAllowed plugin.columns request.context then s.source
          else origin disable_caching plugin request s }
  | .others change => { s with table := { s.table with db := change s.table.db } }

/-- A property of every event together with the state that it finds. -/
def Throughout (P : History → Event → Prop) : List Event → History → Prop
  | [], _ => True
  | event :: events, s =>
      P s event ∧ Throughout P events (happen json disable_caching plugin name s event)

/-- A table that stored nothing since the start. -/
def History.start (db : Database) : History := ⟨⟨0, 0, db⟩, none⟩

/-- Every row that a query gets has the values of the columns that the query uses. -/
def Shown (s : History) : Event → Prop
  | .query request =>
      ∃ source, origin disable_caching plugin request s = some source ∧
        ∀ (i : ℕ) (row : Row),
          (generate json disable_caching plugin name request s.table).2[i]? = some row →
            ∃ fullRow : Row, source.full[i]? = some fullRow ∧
              ∀ column ∈ plugin.columns, request.context.isColumnUsed column.name = true →
                ∃ value, row[column.name]? = some value ∧ fullRow[column.name]? = some value
  | .others _ => True

/-- A query that gets stored rows uses only columns that the query that stored them used,
or that were filled all the same, and JSON keeps those rows; others leave the entry of the
cache alone or delete it. -/
def Covered (s : History) : Event → Prop
  | .query request =>
      isCached disable_caching plugin request.kCacheStep request.context s.table = true →
        (lookup s.table.db kQueries ("cache." ++ name)).isSome →
          ∀ source, s.source = some source →
            (∀ row ∈ source.generated, Storable row) ∧
              ∀ column ∈ plugin.columns, request.context.isColumnUsed column.name = true →
                source.context.isColumnUsed column.name = true ∨ source.FillsColumn column.name
  | .others change =>
      lookup (change s.table.db) kQueries ("cache." ++ name) =
          lookup s.table.db kQueries ("cache." ++ name) ∨
        lookup (change s.table.db) kQueries ("cache." ++ name) = none

/-! ### The stored rows -/

theorem deserializeRowList_serialize (q qd : QueryData) :
    deserializeRowList (q.map fun r => .obj (serializeRow r [] [])) qd = qd ++ q.map jsonRow := by
  induction q generalizing qd with
  | nil => simp [deserializeRowList]
  | cons r rest ih =>
      rw [List.map_cons, deserializeRowList]
      simp only [deserializeRow]
      rw [ih]
      simp [jsonRow]

/-- What was stored for rows is read back as the rows that JSON keeps. -/
theorem getCache_of_stored {s : CachedTable} {results : QueryData}
    (h : lookup s.db kQueries ("cache." ++ name) = some (serializeQueryDataJSON json results)) :
    getCache json name s = results.map jsonRow := by
  rw [getCache, h]
  simp only [serializeQueryDataJSON, toString_eq_write, parse_cstr_write, serializeQueryData,
    List.nil_append]
  exact deserializeRowList_serialize results []

/-- Nothing is fresh before anything was stored. -/
theorem not_isCached_of_unset {step : UInt64} {ctx : QueryContext} {s : CachedTable}
    (h : s.last_cached + s.last_interval = 0) :
    isCached disable_caching plugin step ctx s = false := by
  rw [isCached, h]
  cases disable_caching with
  | true => rfl
  | false =>
      have hzero : ¬step < 0 := by
        rw [UInt64.lt_iff_toNat_lt]
        exact Nat.not_lt_zero _
      simp [hzero]

/-! ### Runs -/

/-- The entry of the cache holds the rows of the last query that stored some, if any. -/
structure Kept (s : History) : Prop where
  unset : s.source = none → s.table.last_cached + s.table.last_interval = 0
  fills : ∀ source, s.source = some source → source.Fills plugin
  stored : ∀ source, s.source = some source →
    lookup s.table.db kQueries ("cache." ++ name) = none ∨
      lookup s.table.db kQueries ("cache." ++ name) =
        some (serializeQueryDataJSON json source.generated)

theorem Kept.start (db : Database) : Kept json plugin name (History.start db) := by
  constructor
  · intro _
    rfl
  · intro source hsource
    cases hsource
  · intro source hsource
    cases hsource

theorem Kept.query {s : History} (h : Kept json plugin name s) {request : Request}
    (hfills : request.Fills plugin) :
    Kept json plugin name (happen json disable_caching plugin name s (.query request)) := by
  rw [happen, generate, origin]
  cases hcached : isCached disable_caching plugin request.kCacheStep request.context s.table with
  | true => simpa using h
  | false =>
      cases hallowed : disable_caching || !cacheAllowed plugin.columns request.context with
      | true => simpa [setCache, hallowed] using h
      | false =>
          simp only [Bool.false_eq_true, if_false, setCache, hallowed]
          constructor
          · intro hnone
            cases hnone
          · intro source hsource
            cases hsource
            exact hfills
          · intro source hsource
            cases hsource
            right
            simp

theorem Kept.others {s : History} (h : Kept json plugin name s) {change : Database → Database}
    (hcovered : Covered disable_caching plugin name s (.others change)) :
    Kept json plugin name (happen json disable_caching plugin name s (.others change)) := by
  constructor
  · exact h.unset
  · exact h.fills
  · intro source hsource
    obtain hsame | hgone := hcovered
    · have hstored := h.stored source hsource
      rw [← hsame] at hstored
      exact hstored
    · left
      exact hgone

/-- A query that gets stored rows has its columns exactly when they were filled. -/
theorem shown_cached_iff {s : History} (h : Kept json plugin name s) {request source : Request}
    (hcached :
      isCached disable_caching plugin request.kCacheStep request.context s.table = true)
    (hsource : s.source = some source)
    (hstored : (lookup s.table.db kQueries ("cache." ++ name)).isSome)
    (hstorable : ∀ row ∈ source.generated, Storable row) :
    Shown json disable_caching plugin name s (.query request) ↔
      ∀ column ∈ plugin.columns, request.context.isColumnUsed column.name = true →
        source.FillsColumn column.name := by
  have hrows : (generate json disable_caching plugin name request s.table).2 =
      source.generated := by
    obtain hnone | hsome := h.stored source hsource
    · rw [hnone] at hstored
      cases hstored
    · rw [generate, if_pos hcached, getCache_of_stored json name hsome]
      have hsame : ∀ row ∈ source.generated, jsonRow row = id row :=
        fun row hrow => jsonRow_of_storable (hstorable row hrow)
      rw [List.map_congr_left hsame, List.map_id]
  have horigin : origin disable_caching plugin request s = some source := by
    rw [origin, if_pos hcached, hsource]
  rw [Shown, horigin, hrows]
  constructor
  · rintro ⟨shown, hshown, hall⟩ column hcolumn hused i row fullRow hrow hfull
    cases hshown
    obtain ⟨fullRow', hfull', hvalues⟩ := hall i row hrow
    rw [hfull] at hfull'
    cases hfull'
    exact hvalues column hcolumn hused
  · intro hfilled
    use source, rfl
    intro i row hrow
    have hlength := (h.fills source hsource).rows
    have hi : i < source.full.length := by
      rw [← hlength]
      exact (List.getElem?_eq_some_iff.mp hrow).1
    use source.full[i], List.getElem?_eq_getElem hi
    intro column hcolumn hused
    exact hfilled column hcolumn hused i row _ hrow (List.getElem?_eq_getElem hi)

theorem shown_generated {s : History} {request : Request} (hfills : request.Fills plugin)
    (hcached :
      isCached disable_caching plugin request.kCacheStep request.context s.table = false) :
    Shown json disable_caching plugin name s (.query request) := by
  have hnot : ¬isCached disable_caching plugin request.kCacheStep request.context s.table =
      true := by simp [hcached]
  rw [Shown, origin, if_neg hnot, generate, if_neg hnot]
  use request, rfl
  intro i row hrow
  have hi : i < request.full.length := by
    rw [← hfills.rows]
    exact (List.getElem?_eq_some_iff.mp hrow).1
  use request.full[i], List.getElem?_eq_getElem hi
  intro column hcolumn hused
  exact hfills.used column hcolumn hused i row _ hrow (List.getElem?_eq_getElem hi)

theorem shown_of_covered {s : History} (h : Kept json plugin name s) {request : Request}
    (hfills : request.Fills plugin)
    (hcovered : Covered disable_caching plugin name s (.query request)) :
    Shown json disable_caching plugin name s (.query request) := by
  cases hcached : isCached disable_caching plugin request.kCacheStep request.context s.table with
  | false => exact shown_generated json disable_caching plugin name hfills hcached
  | true =>
      cases hsource : s.source with
      | none =>
          rw [not_isCached_of_unset disable_caching plugin (h.unset hsource)] at hcached
          cases hcached
      | some source =>
          cases hstored : lookup s.table.db kQueries ("cache." ++ name) with
          | none =>
              use source
              constructor
              · rw [origin, if_pos hcached, hsource]
              · intro i row hrow
                simp [generate, hcached, getCache, hstored] at hrow
          | some content =>
              have hsome : (lookup s.table.db kQueries ("cache." ++ name)).isSome := by
                rw [hstored]
                rfl
              obtain ⟨hstorable, hused⟩ := hcovered hcached hsome source hsource
              apply (shown_cached_iff json disable_caching plugin name h hcached hsource hsome
                hstorable).mpr
              intro column hcolumn huses
              obtain huse | hfill := hused column hcolumn huses
              · exact (h.fills source hsource).used column hcolumn huse
              · exact hfill

/-- In a run whose queries are covered, every query gets the columns that it uses. -/
theorem cache_hides_nothing (events : List Event) (db : Database)
    (hfills : ∀ request, .query request ∈ events → request.Fills plugin)
    (hcovered : Throughout json disable_caching plugin name
      (Covered disable_caching plugin name) events (History.start db)) :
    Throughout json disable_caching plugin name (Shown json disable_caching plugin name) events
      (History.start db) := by
  have hrun : ∀ s, Kept json plugin name s →
      Throughout json disable_caching plugin name (Covered disable_caching plugin name) events s →
        Throughout json disable_caching plugin name (Shown json disable_caching plugin name)
          events s := by
    clear hcovered
    induction events with
    | nil =>
        intro s _ _
        trivial
    | cons event events ih =>
        rintro s hs ⟨hevent, hrest⟩
        have hrestFills : ∀ request, .query request ∈ events → request.Fills plugin :=
          fun request hrequest => hfills request (List.mem_cons_of_mem _ hrequest)
        cases event with
        | query request =>
            have hrequest := hfills request List.mem_cons_self
            constructor
            · exact shown_of_covered json disable_caching plugin name hs hrequest hevent
            · exact ih hrestFills _ (hs.query json disable_caching plugin name hrequest) hrest
        | others change =>
            constructor
            · trivial
            · exact ih hrestFills _ (hs.others json disable_caching plugin name hevent) hrest
  exact hrun _ (Kept.start json plugin name db) hcovered

end Runs

/-! ### Two queries in one step -/

def pidAndSize : TablePlugin := ⟨[⟨"pid", .bigint, {}⟩, ⟨"total_size", .bigint, {}⟩], []⟩

def fullRow : Row := Std.ExtTreeMap.ofList [("pid", "1"), ("total_size", "4096")]

/-- A query that uses the number of the process. -/
def pidRequest : Request where
  kCacheStep := 60
  kCacheInterval := 60
  context := ⟨∅, some ["pid"], true⟩
  generated := [Std.ExtTreeMap.ofList [("pid", "1")]]
  full := [fullRow]

/-- A query that uses both columns. -/
def sizeRequest : Request where
  kCacheStep := 60
  kCacheInterval := 60
  context := ⟨∅, some ["pid", "total_size"], true⟩
  generated := [fullRow]
  full := [fullRow]

theorem pidRequest_fills : pidRequest.Fills pidAndSize := by
  constructor
  · rfl
  · intro column hcolumn hused
    have hname : column.name = "pid" := by
      simpa [pidRequest, QueryContext.isColumnUsed] using hused
    rw [hname]
    rintro (_ | i) row full hrow hfull
    · obtain rfl := Option.some.inj hrow
      obtain rfl := Option.some.inj hfull
      exact ⟨"1", by decide, by decide⟩
    · cases hrow

theorem sizeRequest_fills : sizeRequest.Fills pidAndSize := by
  constructor
  · rfl
  · intro column hcolumn hused
    have hname : column.name = "pid" ∨ column.name = "total_size" := by
      simpa [pidAndSize, or_comm] using List.mem_map_of_mem (f := Column.name) hcolumn
    rintro (_ | i) row full hrow hfull
    · obtain rfl := Option.some.inj hrow
      obtain rfl := Option.some.inj hfull
      obtain hname | hname := hname
      · rw [hname]
        exact ⟨"1", by decide, by decide⟩
      · rw [hname]
        exact ⟨"4096", by decide, by decide⟩
    · cases hrow

theorem fullRow_storable : Storable fullRow := by
  apply storable_insert (storable_insert storable_empty _ _ _)
  all_goals decide

/-- A query for one column after a query for both. -/
theorem cache_hides_nothing_pid :
    Throughout reference false pidAndSize "processes"
      (Shown reference false pidAndSize "processes") [.query sizeRequest, .query pidRequest]
      (History.start ∅) := by
  apply cache_hides_nothing reference false pidAndSize "processes"
  · intro request hrequest
    simp only [List.mem_cons, List.not_mem_nil, or_false, Event.query.injEq] at hrequest
    obtain rfl | rfl := hrequest
    · exact sizeRequest_fills
    · exact pidRequest_fills
  · constructor
    · intro _ _ source hsource
      cases hsource
    · constructor
      · intro _ _ source hsource
        obtain rfl := Option.some.inj hsource
        constructor
        · intro row hrow
          obtain rfl := List.mem_singleton.mp hrow
          exact fullRow_storable
        · intro column hcolumn hused
          left
          have hname : column.name = "pid" := by
            simpa [pidRequest, QueryContext.isColumnUsed] using hused
          rw [hname]
          decide
      · trivial

/-- A query for both columns after a query for one gets rows that lack a column. -/
theorem column_hidden :
    ¬∀ (events : List Event) (db : Database),
      (∀ request, .query request ∈ events → request.Fills pidAndSize) →
        Throughout reference false pidAndSize "processes"
          (Shown reference false pidAndSize "processes") events (History.start db) := by
  intro hall
  have hfills : ∀ request, .query request ∈ [Event.query pidRequest, .query sizeRequest] →
      request.Fills pidAndSize := by
    intro request hrequest
    simp only [List.mem_cons, List.not_mem_nil, or_false, Event.query.injEq] at hrequest
    obtain rfl | rfl := hrequest
    · exact pidRequest_fills
    · exact sizeRequest_fills
  obtain ⟨_, hshown, _⟩ := hall _ ∅ hfills
  have hkept := (Kept.start reference pidAndSize "processes" ∅).query reference false pidAndSize
    "processes" pidRequest_fills
  have hdb : (happen reference false pidAndSize "processes" (History.start ∅)
      (.query pidRequest)).table.db = Ephemeral.setValue ∅ kQueries ("cache." ++ "processes")
        (serializeQueryDataJSON reference pidRequest.generated) := rfl
  have hstorable : ∀ row ∈ pidRequest.generated, Storable row := by
    intro row hrow
    obtain rfl := List.mem_singleton.mp hrow
    apply storable_insert storable_empty
    all_goals decide
  have hfilled := (shown_cached_iff reference false pidAndSize "processes" hkept (by decide) rfl
    (by rw [hdb]; simp) hstorable).mp hshown ⟨"total_size", .bigint, {}⟩ (by decide) (by decide)
  obtain ⟨value, hvalue, _⟩ := hfilled 0 _ _ rfl rfl
  have hmissing : (Std.ExtTreeMap.ofList [("pid", "1")] : Row)["total_size"]? = none := by
    decide
  rw [hmissing] at hvalue
  cases hvalue

end Osquery.Tables
