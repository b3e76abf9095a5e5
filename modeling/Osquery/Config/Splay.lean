import Osquery.Config.Accessors
import Osquery.Config.SplayedValue

/-!
# Splayed intervals over reloads

A load of the configuration initializes its packs one after the other, and asks for the splayed
interval of each of their queries. Only one record is kept under a name of a query, whatever pack
the query is in, so two queries of one name with different intervals take each other's place, and
draw new values in every load.

## Implementation notes

A load is a function of how splayed intervals are asked for, so that the requests of a load can
be noted by the very same code. The flag is set when a pack is initialized, before any request,
and has that value here throughout. Between two loads no one else writes the records; purging,
which removes those of queries that did not run for a week, is left out.
-/

namespace Osquery.Config

open Foundation.JsonText Foundation.Recall Core.BackingStore Core.Rows

/-! ### Loading packs -/

/-- A pack of the configuration. -/
structure PackSource where
  name : String
  source : String
  obj : Json

/-- The queries of a pack by name, each with its splayed interval. -/
abbrev SplayedSchedule (ν : Type) := Std.ExtTreeMap String (ScheduledQuery × ν)

structure SplayedPack (ν : Type) where
  name : String
  source : String
  schedule : SplayedSchedule ν

/-- The percent in use; a percent below two is reset to a sane estimate. -/
def sanePercent (schedule_splay_percent : UInt64) : UInt64 :=
  if schedule_splay_percent ≤ 1 then 10 else schedule_splay_percent

section Load

variable {σ ν : Type} (restore : String → UInt64 → σ → ν × σ)
variable (host : Host) (defaultInterval : UInt64)

/-- The loop over the queries of a pack. It ends early where the check of a version throws, and a
query whose name is there already has its interval splayed nevertheless. -/
def splayQueries :
    List (String × Json) → SplayedSchedule ν → σ → Option (SplayedSchedule ν) × σ
  | [], schedule, st => (some schedule, st)
  | q :: queries, schedule, st =>
      match packQuery host defaultInterval q.2 with
      | none => (none, st)
      | some none => splayQueries queries schedule st
      | some (some query) =>
          let splayed := restore (cstr q.1) query.interval st
          splayQueries queries (schedule.insertIfNew (cstr q.1) (query, splayed.1)) splayed.2

/-- A pack that is restricted to other hosts has no queries. -/
def initializeSplayed (obj : Json) (st : σ) : Option (SplayedSchedule ν) × σ :=
  let shard := ((member? "shard" obj).map (valueToSize host)).getD 0
  let platform := (stringMember? "platform" obj).getD ""
  let version := (stringMember? "version" obj).getD ""
  if shardExcluded host shard || !checkPlatform host platform then (some ∅, st)
  else
    match checkVersion host version with
    | none => (none, st)
    | some false => (some ∅, st)
    | some true =>
        splayQueries restore host defaultInterval
          (((member? "queries" obj).map getObject).getD []) ∅ st

/-- A pack takes the place of the one with its name and source, unless it throws. -/
def addSplayed (loaded : List (SplayedPack ν) × σ) (pack : PackSource) :
    List (SplayedPack ν) × σ :=
  match initializeSplayed restore host defaultInterval pack.obj loaded.2 with
  | (none, st) => (loaded.1, st)
  | (some schedule, st) =>
      (loaded.1.filter (fun p =>
        !(p.name = pack.name && (p.source = pack.source || pack.source = ""))) ++
          [⟨pack.name, pack.source, schedule⟩], st)

def loadSplayed (config : List PackSource) (st : σ) : List (SplayedPack ν) × σ :=
  config.foldl (addSplayed restore host defaultInterval) ([], st)

end Load

/-! ### What a load asks for -/

/-- Requests by the names of queries and their intervals. -/
abbrev Requests := List (String × UInt64)

/-- In the place of a value, the requests up to this one. -/
def noteRequest (name : String) (interval : UInt64) (asked : Requests) : Requests × Requests :=
  (asked ++ [(name, interval)], asked ++ [(name, interval)])

section Stable

variable (host : Host) (defaultInterval : UInt64) (config : List PackSource)

/-- The packs of a load, in which each query has the requests up to its own. -/
def notedPacks : List (SplayedPack Requests) :=
  (loadSplayed noteRequest host defaultInterval config []).1

/-- All requests of a load. -/
def requests : Requests := (loadSplayed noteRequest host defaultInterval config []).2

/-- The state after a number of loads. -/
def stateAfter (draw : ℕ → UInt64 → UInt64 → UInt64) (splayPercent : UInt64) (db : Database)
    (n : ℕ) : SplayState :=
  (fun st => (loadSplayed (askSplay draw splayPercent) host defaultInterval config st).2)^[n]
    ⟨db, 0⟩

/-- The packs of a load after a number of loads before it. -/
def reloaded (draw : ℕ → UInt64 → UInt64 → UInt64) (splayPercent : UInt64) (db : Database)
    (n : ℕ) : List (SplayedPack UInt64) :=
  (loadSplayed (askSplay draw splayPercent) host defaultInterval config
    (stateAfter host defaultInterval config draw splayPercent db n)).1

/-- Every reload gives each query of each pack the splayed interval of the first load, and it is
within the bounds for the interval of the query. -/
def SplaysStable (schedule_splay_percent : UInt64) (db : Database) : Prop :=
  ∀ draw, Draws draw → ∀ n : ℕ,
    let splayed := reloaded host defaultInterval config draw (sanePercent schedule_splay_percent) db
    splayed n = splayed 0 ∧
      ∀ pack ∈ splayed n, ∀ (name : String) query splay,
        pack.schedule[name]? = some (query, splay) →
          WithinBounds query.interval (sanePercent schedule_splay_percent) splay

/-- For every query of a pack, all requests of a load under its name are for one interval, or
nothing can be drawn for its interval but one value; and if no request up to its own is for
another interval, a value that is recorded for it at first is within the bounds. -/
def SplaysSettled (schedule_splay_percent : UInt64) (db : Database) : Prop :=
  ∀ pack ∈ notedPacks host defaultInterval config, ∀ (name : String) query asked,
    pack.schedule[name]? = some (query, asked) →
      let bounds := splayBounds query.interval (sanePercent schedule_splay_percent)
      (Uniform name query.interval (requests host defaultInterval config) ∨
        bounds.1 = bounds.2) ∧
      (Uniform name query.interval asked → ∀ splay,
        recordedSplay db name query.interval = some splay →
          WithinBounds query.interval (sanePercent schedule_splay_percent) splay)

end Stable

variable {host : Host} {defaultInterval : UInt64} {config : List PackSource}

/-! ### The schedule of a pack -/

theorem map_insertIfNew {β γ : Type} (f : String → β → γ) (map : Std.ExtTreeMap String β)
    (name : String) (v : β) :
    (map.insertIfNew name v).map f = (map.map f).insertIfNew name (f name v) := by
  apply Std.ExtTreeMap.ext_getElem?
  intro k
  have hmem : name ∈ map.map f ↔ name ∈ map := by
    rw [Std.ExtTreeMap.mem_iff_isSome_getElem?, Std.ExtTreeMap.getElem?_map, Option.isSome_map,
      ← Std.ExtTreeMap.mem_iff_isSome_getElem?]
  rw [Std.ExtTreeMap.getElem?_map, Std.ExtTreeMap.getElem?_insertIfNew,
    Std.ExtTreeMap.getElem?_insertIfNew]
  simp only [hmem, Std.ExtTreeMap.getElem?_map]
  split
  · rename_i hk
    rw [Option.map_some, Std.compare_eq_iff_eq.mp hk.1]
  · rfl

section Schedule

variable {σ ν : Type} (restore : String → UInt64 → σ → ν × σ)

/-- The queries without their splayed intervals. -/
def SplayedSchedule.queries (schedule : SplayedSchedule ν) : Std.ExtTreeMap String ScheduledQuery :=
  schedule.map fun _ query => query.1

theorem splayQueries_queries (queries : List (String × Json)) (schedule : SplayedSchedule ν)
    (st : σ) :
    (splayQueries restore host defaultInterval queries schedule st).1.map
        SplayedSchedule.queries =
      queries.foldlM (fun schedule q => do
        match ← packQuery host defaultInterval q.2 with
        | none => return schedule
        | some query => return schedule.insertIfNew (cstr q.1) query) schedule.queries := by
  induction queries generalizing schedule st with
  | nil => rfl
  | cons q queries ih =>
      rw [splayQueries, List.foldlM_cons]
      split
      · rename_i hquery
        rw [hquery]
        rfl
      · rename_i hquery
        rw [hquery]
        exact ih schedule st
      · rename_i query hquery
        rw [hquery]
        exact (ih _ _).trans (by rw [SplayedSchedule.queries, map_insertIfNew]; rfl)

/-- Splaying the intervals leaves the schedule of the pack as it is. -/
theorem initializeSplayed_queries (name source : String) (obj : Json) (st : σ) :
    (initializeSplayed restore host defaultInterval obj st).1.map SplayedSchedule.queries =
      (initializePack host defaultInterval name source obj).map Pack.schedule := by
  simp only [initializeSplayed, initializePack, bind, pure]
  split
  · rfl
  · cases checkVersion host ((stringMember? "version" obj).getD "") with
    | none => rfl
    | some current =>
        cases current with
        | false => rfl
        | true =>
            refine (splayQueries_queries restore _ ∅ st).trans ?_
            change packSchedule host defaultInterval _ = _
            cases packSchedule host defaultInterval _ <;> rfl

end Schedule

/-! ### Two ways of asking -/

section Homomorphism

variable {σ σ' ν ν' : Type} {restore : String → UInt64 → σ → ν × σ}
  {restore' : String → UInt64 → σ' → ν' × σ'}

def SplayedSchedule.mapSplays (f : ν → ν') (schedule : SplayedSchedule ν) : SplayedSchedule ν' :=
  schedule.map fun _ query => (query.1, f query.2)

def SplayedPack.mapSplays (f : ν → ν') (pack : SplayedPack ν) : SplayedPack ν' :=
  ⟨pack.name, pack.source, pack.schedule.mapSplays f⟩

@[simp] theorem getElem?_mapSplays (f : ν → ν') (schedule : SplayedSchedule ν) (name : String) :
    (schedule.mapSplays f)[name]? = schedule[name]?.map fun query => (query.1, f query.2) :=
  Std.ExtTreeMap.getElem?_map

variable {f : ν → ν'} {g : σ → σ'}
  (h : ∀ name interval st, restore' name interval (g st) =
    (f (restore name interval st).1, g (restore name interval st).2))

include h

theorem splayQueries_map (queries : List (String × Json)) (schedule : SplayedSchedule ν) (st : σ) :
    splayQueries restore' host defaultInterval queries (schedule.mapSplays f) (g st) =
      ((splayQueries restore host defaultInterval queries schedule st).1.map
        (SplayedSchedule.mapSplays f),
        g (splayQueries restore host defaultInterval queries schedule st).2) := by
  induction queries generalizing schedule st with
  | nil => rfl
  | cons q queries ih =>
      rw [splayQueries, splayQueries]
      split
      · rfl
      · exact ih schedule st
      · rename_i query _
        dsimp only
        rw [h, ← ih, SplayedSchedule.mapSplays, SplayedSchedule.mapSplays, map_insertIfNew]

theorem initializeSplayed_map (obj : Json) (st : σ) :
    initializeSplayed restore' host defaultInterval obj (g st) =
      ((initializeSplayed restore host defaultInterval obj st).1.map (SplayedSchedule.mapSplays f),
        g (initializeSplayed restore host defaultInterval obj st).2) := by
  have hempty : SplayedSchedule.mapSplays f ∅ = ∅ := rfl
  rw [initializeSplayed, initializeSplayed]
  split
  · rw [Option.map_some, hempty]
  · split
    · rfl
    · rw [Option.map_some, hempty]
    · rw [← splayQueries_map h, hempty]

theorem addSplayed_map (loaded : List (SplayedPack ν) × σ) (pack : PackSource) :
    addSplayed restore' host defaultInterval
        (loaded.1.map (SplayedPack.mapSplays f), g loaded.2) pack =
      ((addSplayed restore host defaultInterval loaded pack).1.map (SplayedPack.mapSplays f),
        g (addSplayed restore host defaultInterval loaded pack).2) := by
  rw [addSplayed, addSplayed, initializeSplayed_map h]
  obtain ⟨schedule, st⟩ := initializeSplayed restore host defaultInterval pack.obj loaded.2
  cases schedule with
  | none => rfl
  | some schedule =>
      dsimp only [Option.map_some]
      rw [List.map_append, List.filter_map]
      rfl

/-- A load that asks in another way is the load with its values and states translated. -/
theorem loadSplayed_map (config : List PackSource) (st : σ) :
    loadSplayed restore' host defaultInterval config (g st) =
      ((loadSplayed restore host defaultInterval config st).1.map (SplayedPack.mapSplays f),
        g (loadSplayed restore host defaultInterval config st).2) := by
  suffices hfold : ∀ loaded : List (SplayedPack ν) × σ,
      config.foldl (addSplayed restore' host defaultInterval)
          (loaded.1.map (SplayedPack.mapSplays f), g loaded.2) =
        ((config.foldl (addSplayed restore host defaultInterval) loaded).1.map
          (SplayedPack.mapSplays f),
          g (config.foldl (addSplayed restore host defaultInterval) loaded).2) from
    hfold ([], st)
  intro loaded
  induction config generalizing loaded with
  | nil => rfl
  | cons pack config ih =>
      rw [List.foldl_cons, List.foldl_cons, addSplayed_map h]
      exact ih _

end Homomorphism

/-! ### The notes of a load -/

theorem packQuery_admissible {q : Json} {query : ScheduledQuery}
    (h : packQuery host defaultInterval q = some (some query)) : Admissible query.interval := by
  rw [Accessors.packQuery_eq] at h
  split at h
  · split at h
    · cases h
    · cases h
    · split at h
      · cases h
      · split at h
        · cases h
        · rename_i hvalid
          obtain rfl := Option.some.inj (Option.some.inj h)
          exact ⟨UInt64.not_le.mp (not_or.mp hvalid).1,
            UInt64.not_lt.mp (not_or.mp (not_or.mp hvalid).2).2⟩
  · cases h

/-- Every query of a schedule has the requests up to its own, of those noted so far. -/
def Noted (asked : Requests) (schedule : SplayedSchedule Requests) : Prop :=
  ∀ (name : String) query own, schedule[name]? = some (query, own) →
    own <+: asked ∧ ∃ earlier, own = earlier ++ [(name, query.interval)]

theorem Noted.mono {asked asked' : Requests} {schedule : SplayedSchedule Requests}
    (h : Noted asked schedule) (hinit : asked <+: asked') : Noted asked' schedule :=
  fun name query own hown => (h name query own hown).imp_left fun hle => hle.trans hinit

theorem noted_empty (asked : Requests) : Noted asked ∅ := fun name query own h => by
  rw [Std.ExtTreeMap.getElem?_empty] at h
  cases h

/-- More requests, for intervals that packs accept. -/
structure MoreNotes (asked asked' : Requests) : Prop where
  isPrefix : asked <+: asked'
  admissible : (∀ r ∈ asked, Admissible r.2) → ∀ r ∈ asked', Admissible r.2

theorem MoreNotes.refl (asked : Requests) : MoreNotes asked asked := ⟨List.prefix_rfl, id⟩

theorem MoreNotes.trans {asked asked' asked'' : Requests} (h : MoreNotes asked asked')
    (h' : MoreNotes asked' asked'') : MoreNotes asked asked'' :=
  ⟨h.isPrefix.trans h'.isPrefix, fun ha => h'.admissible (h.admissible ha)⟩

theorem moreNotes_noteRequest {interval : UInt64} (h : Admissible interval) (name : String)
    (asked : Requests) : MoreNotes asked (noteRequest name interval asked).2 :=
  ⟨List.prefix_append .., fun ha r hr => (List.mem_append.mp hr).elim (ha r) fun hlast => by
    obtain rfl := List.mem_singleton.mp hlast
    exact h⟩

theorem Noted.insertIfNew {asked : Requests} {schedule : SplayedSchedule Requests}
    (h : Noted asked schedule) (name : String) (query : ScheduledQuery) :
    Noted (noteRequest name query.interval asked).2
      (schedule.insertIfNew name (query, (noteRequest name query.interval asked).1)) := by
  intro k query' own hown
  rw [Std.ExtTreeMap.getElem?_insertIfNew] at hown
  split at hown
  · rename_i hk
    obtain rfl := Std.compare_eq_iff_eq.mp hk.1
    cases hown
    exact ⟨List.prefix_rfl, asked, rfl⟩
  · exact h.mono (List.prefix_append ..) k query' own hown

theorem splayQueries_noted (queries : List (String × Json)) {schedule : SplayedSchedule Requests}
    {asked : Requests} (h : Noted asked schedule) :
    let noted := splayQueries noteRequest host defaultInterval queries schedule asked
    MoreNotes asked noted.2 ∧ ∀ schedule' ∈ noted.1, Noted noted.2 schedule' := by
  induction queries generalizing schedule asked with
  | nil =>
      refine ⟨MoreNotes.refl asked, fun schedule' h' => ?_⟩
      obtain rfl := Option.some.inj h'
      exact h
  | cons q queries ih =>
      rw [splayQueries]
      split
      · exact ⟨MoreNotes.refl asked, nofun⟩
      · exact ih h
      · rename_i query hquery
        have hadmissible := packQuery_admissible hquery
        obtain ⟨hmore, hnoted⟩ := ih (h.insertIfNew (cstr q.1) query)
        exact ⟨(moreNotes_noteRequest hadmissible _ asked).trans hmore, hnoted⟩

theorem initializeSplayed_noted (host : Host) (defaultInterval : UInt64) (obj : Json)
    (asked : Requests) :
    let noted := initializeSplayed noteRequest host defaultInterval obj asked
    MoreNotes asked noted.2 ∧ ∀ schedule ∈ noted.1, Noted noted.2 schedule := by
  have hempty : ∀ schedule ∈ some (∅ : SplayedSchedule Requests), Noted asked schedule := by
    intro schedule h
    obtain rfl := Option.some.inj h
    exact noted_empty asked
  rw [initializeSplayed]
  split
  · exact ⟨MoreNotes.refl asked, hempty⟩
  · split
    · exact ⟨MoreNotes.refl asked, nofun⟩
    · exact ⟨MoreNotes.refl asked, hempty⟩
    · exact splayQueries_noted _ (noted_empty asked)

theorem addSplayed_noted {loaded : List (SplayedPack Requests) × Requests} (pack : PackSource)
    (h : ∀ p ∈ loaded.1, Noted loaded.2 p.schedule) :
    let noted := addSplayed noteRequest host defaultInterval loaded pack
    MoreNotes loaded.2 noted.2 ∧ ∀ p ∈ noted.1, Noted noted.2 p.schedule := by
  obtain ⟨hmore, hnoted⟩ :=
    initializeSplayed_noted host defaultInterval pack.obj loaded.2
  rw [addSplayed]
  revert hmore hnoted
  obtain ⟨schedule, asked⟩ :=
    initializeSplayed noteRequest host defaultInterval pack.obj loaded.2
  intro hmore hnoted
  cases schedule with
  | none => exact ⟨hmore, fun p hp => (h p hp).mono hmore.isPrefix⟩
  | some schedule =>
      refine ⟨hmore, fun p hp => ?_⟩
      rcases List.mem_append.mp hp with hp | hp
      · exact (h p (List.mem_filter.mp hp).1).mono hmore.isPrefix
      · obtain rfl := List.mem_singleton.mp hp
        exact hnoted schedule rfl

/-- The requests of a load are for intervals that packs accept, and every query of a pack that is
loaded has the requests up to its own. -/
theorem loadSplayed_noted (host : Host) (defaultInterval : UInt64) (config : List PackSource) :
    (∀ r ∈ requests host defaultInterval config, Admissible r.2) ∧
      ∀ pack ∈ notedPacks host defaultInterval config,
        Noted (requests host defaultInterval config) pack.schedule := by
  have hload : MoreNotes [] (requests host defaultInterval config) ∧
      ∀ pack ∈ notedPacks host defaultInterval config,
        Noted (requests host defaultInterval config) pack.schedule := by
    rw [requests, notedPacks, loadSplayed]
    induction config using List.reverseRecOn with
    | nil => exact ⟨MoreNotes.refl [], nofun⟩
    | append_singleton config pack ih =>
        rw [List.foldl_append, List.foldl_cons, List.foldl_nil]
        obtain ⟨hmore, hnoted⟩ := addSplayed_noted pack ih.2
        exact ⟨ih.1.trans hmore, hnoted⟩
  exact ⟨hload.1.admissible nofun, hload.2⟩

/-! ### The values of a load -/

section Values

variable {draw : ℕ → UInt64 → UInt64 → UInt64} {splayPercent : UInt64}

/-- The value of the last of some requests. -/
def lastSplay (draw : ℕ → UInt64 → UInt64 → UInt64) (splayPercent : UInt64) (st : SplayState)
    (asked : Requests) : UInt64 :=
  match asked.getLast? with
  | none => 0
  | some r =>
      (askSplay draw splayPercent r.1 r.2
        (after (askSplay draw splayPercent) asked.dropLast st)).1

theorem lastSplay_concat (draw : ℕ → UInt64 → UInt64 → UInt64) (splayPercent : UInt64)
    (st : SplayState) (asked : Requests) (r : String × UInt64) :
    lastSplay draw splayPercent st (asked ++ [r]) =
      (askSplay draw splayPercent r.1 r.2 (after (askSplay draw splayPercent) asked st)).1 := by
  rw [lastSplay, List.getLast?_concat, List.dropLast_concat]

/-- A load is its notes, each read as the value of the last request in it. -/
theorem loadSplayed_eq (host : Host) (defaultInterval : UInt64) (config : List PackSource)
    (draw : ℕ → UInt64 → UInt64 → UInt64) (splayPercent : UInt64) (st : SplayState) :
    loadSplayed (askSplay draw splayPercent) host defaultInterval config st =
      ((notedPacks host defaultInterval config).map
          (SplayedPack.mapSplays (lastSplay draw splayPercent st)),
        after (askSplay draw splayPercent) (requests host defaultInterval config) st) := by
  have hask : ∀ name interval asked,
      askSplay draw splayPercent name interval (after (askSplay draw splayPercent) asked st) =
        (lastSplay draw splayPercent st (noteRequest name interval asked).1,
          after (askSplay draw splayPercent) (noteRequest name interval asked).2 st) := by
    intro name interval asked
    rw [noteRequest, lastSplay_concat, after_append]
    rfl
  exact loadSplayed_map (f := lastSplay draw splayPercent st)
    (g := fun asked => after (askSplay draw splayPercent) asked st) hask config []

/-- The requests of a number of loads. -/
def allRequests (host : Host) (defaultInterval : UInt64) (config : List PackSource) (n : ℕ) :
    Requests := (List.replicate n (requests host defaultInterval config)).flatten

theorem allRequests_succ (host : Host) (defaultInterval : UInt64) (config : List PackSource)
    (n : ℕ) :
    allRequests host defaultInterval config (n + 1) =
      allRequests host defaultInterval config n ++ requests host defaultInterval config := by
  rw [allRequests, List.replicate_succ', List.flatten_append]
  simp [allRequests]

theorem stateAfter_eq (host : Host) (defaultInterval : UInt64) (config : List PackSource)
    (draw : ℕ → UInt64 → UInt64 → UInt64) (splayPercent : UInt64) (db : Database) (n : ℕ) :
    stateAfter host defaultInterval config draw splayPercent db n =
      after (askSplay draw splayPercent) (allRequests host defaultInterval config n) ⟨db, 0⟩ := by
  induction n with
  | zero => rfl
  | succ n ih =>
      rw [stateAfter, Function.iterate_succ_apply', ← stateAfter, ih, loadSplayed_eq,
        allRequests_succ, after_append]

/-- The value of a request after a number of loads and the requests before it. -/
def splayAfter (host : Host) (defaultInterval : UInt64) (config : List PackSource)
    (draw : ℕ → UInt64 → UInt64 → UInt64) (splayPercent : UInt64) (db : Database) (n : ℕ)
    (earlier : Requests) (name : String) (interval : UInt64) : UInt64 :=
  (askSplay draw splayPercent name interval (after (askSplay draw splayPercent)
    (allRequests host defaultInterval config n ++ earlier) ⟨db, 0⟩)).1

theorem lastSplay_stateAfter (draw : ℕ → UInt64 → UInt64 → UInt64) (splayPercent : UInt64)
    (db : Database) (n : ℕ) (earlier : Requests) (name : String) (interval : UInt64) :
    lastSplay draw splayPercent (stateAfter host defaultInterval config draw splayPercent db n)
        (earlier ++ [(name, interval)]) =
      splayAfter host defaultInterval config draw splayPercent db n earlier name interval := by
  rw [lastSplay_concat, stateAfter_eq, splayAfter, after_append]

theorem reloaded_eq (draw : ℕ → UInt64 → UInt64 → UInt64) (splayPercent : UInt64)
    (db : Database) (n : ℕ) :
    reloaded host defaultInterval config draw splayPercent db n =
      (notedPacks host defaultInterval config).map (SplayedPack.mapSplays (lastSplay draw
        splayPercent (stateAfter host defaultInterval config draw splayPercent db n))) := by
  rw [reloaded, loadSplayed_eq]

/-! ### One query over all loads -/

theorem admissible_allRequests (host : Host) (defaultInterval : UInt64) (config : List PackSource)
    (n : ℕ) : ∀ r ∈ allRequests host defaultInterval config n, Admissible r.2 := by
  intro r hr
  obtain ⟨round, hround, hr⟩ := List.mem_flatten.mp hr
  obtain ⟨-, rfl⟩ := List.mem_replicate.mp hround
  exact (loadSplayed_noted host defaultInterval config).1 r hr

theorem uniform_allRequests {name : String} {interval : UInt64}
    (h : Uniform name interval (requests host defaultInterval config)) (n : ℕ) :
    Uniform name interval (allRequests host defaultInterval config n) := by
  intro r hr
  obtain ⟨round, hround, hr⟩ := List.mem_flatten.mp hr
  obtain ⟨-, rfl⟩ := List.mem_replicate.mp hround
  exact h r hr

variable {db : Database} {earlier : Requests} {name : String} {interval : UInt64}

/-- The requests up to one of the query in any load. -/
theorem admissible_before
    (hasked : earlier ++ [(name, interval)] <+: requests host defaultInterval config) (n : ℕ) :
    (∀ r ∈ allRequests host defaultInterval config n ++ earlier, Admissible r.2) ∧
      Admissible interval := by
  have hload := (loadSplayed_noted host defaultInterval config).1
  constructor
  · intro r hr
    rcases List.mem_append.mp hr with hr | hr
    · exact admissible_allRequests host defaultInterval config n r hr
    · exact hload r (hasked.subset (List.mem_append_left _ hr))
  · exact hload (name, interval) (hasked.subset (by simp))

/-- Values are within the bounds, if a value recorded at first is that no other interval takes
the place of before the request. -/
theorem withinBounds_splayAfter (hdraw : Draws draw)
    (hasked : earlier ++ [(name, interval)] <+: requests host defaultInterval config)
    (hrecorded : Uniform name interval (earlier ++ [(name, interval)]) → ∀ splay,
      recordedSplay db name interval = some splay → WithinBounds interval splayPercent splay)
    (n : ℕ) :
    WithinBounds interval splayPercent
      (splayAfter host defaultInterval config draw splayPercent db n earlier name interval) := by
  have hrecalls := recalls_askSplay hdraw splayPercent
  obtain ⟨hvalid, hinterval⟩ := admissible_before hasked n
  have hfresh : ∀ t, WithinBounds interval splayPercent
      (splayValue (draw t) interval splayPercent) :=
    withinBounds_splayValue hdraw hinterval splayPercent
  by_cases huniform :
      Uniform name interval (allRequests host defaultInterval config n ++ earlier)
  · have hown : Uniform name interval (earlier ++ [(name, interval)]) := by
      refine uniform_append.mpr ⟨(uniform_append.mp huniform).2, fun r hr _ => ?_⟩
      rw [List.mem_singleton.mp hr]
    exact hrecalls.value_of hinterval
      (hrecalls.recall_after_of hvalid (hrecorded hown) fun t _ _ => hfresh t) (hfresh _)
  · exact hrecalls.value_of_mixed hvalid hinterval huniform fun t _ _ => hfresh t

/-- A recorded value is the one of the first load, if no request before is for another interval. -/
theorem splayAfter_zero_of_recorded (hdraw : Draws draw)
    (hasked : earlier ++ [(name, interval)] <+: requests host defaultInterval config)
    (huniform : Uniform name interval (earlier ++ [(name, interval)])) {splay : UInt64}
    (hrecorded : recordedSplay db name interval = some splay) :
    splayAfter host defaultInterval config draw splayPercent db 0 earlier name interval =
      splay := by
  have hrecalls := recalls_askSplay hdraw splayPercent
  obtain ⟨hvalid, hinterval⟩ := admissible_before hasked 0
  exact hrecalls.value_of_recall hinterval
    (hrecalls.recall_after_uniform hvalid (uniform_append.mp huniform).1 hrecorded)

/-- With one interval under the name, every load gives the value of the first request. -/
theorem splayAfter_of_uniform (hdraw : Draws draw)
    (hasked : earlier ++ [(name, interval)] <+: requests host defaultInterval config)
    (huniform : Uniform name interval (requests host defaultInterval config)) :
    ∃ splay, ∀ n,
      splayAfter host defaultInterval config draw splayPercent db n earlier name interval =
        splay := by
  have hrecalls := recalls_askSplay hdraw splayPercent
  have hmem : (name, interval) ∈ requests host defaultInterval config := hasked.subset (by simp)
  obtain ⟨first, rest, hsplit, hnot⟩ := List.eq_append_cons_of_mem hmem
  have hfirst : first ++ [(name, interval)] <+: requests host defaultInterval config :=
    ⟨rest, by rw [hsplit, List.append_assoc, List.singleton_append]⟩
  refine ⟨splayAfter host defaultInterval config draw splayPercent db 0 first name interval,
    fun n => ?_⟩
  -- Both requests are among those of one load more.
  refine hrecalls.value_eq_first (admissible_allRequests host defaultInterval config (n + 1))
    (uniform_allRequests huniform (n + 1)) ?_ ?_ hnot ⟨db, 0⟩
  · rw [allRequests_succ, List.append_assoc]
    exact (List.prefix_append_right_inj _).mpr hasked
  · rw [allRequests, List.replicate_succ, List.flatten_cons]
    exact hfirst.trans (List.prefix_append ..)

theorem length_allRequests (host : Host) (defaultInterval : UInt64) (config : List PackSource)
    (n : ℕ) :
    (allRequests host defaultInterval config n).length =
      n * (requests host defaultInterval config).length := by
  simp [allRequests]

/-- With another interval under the name, a load draws its value within the load or, up to the
request, in the one before. -/
theorem splayAfter_of_mixed (hdraw : Draws draw)
    (hasked : earlier ++ [(name, interval)] <+: requests host defaultInterval config)
    (hmixed : ¬Uniform name interval (requests host defaultInterval config)) {P : UInt64 → Prop}
    (n : ℕ)
    (hfresh : ∀ t, n * (requests host defaultInterval config).length ≤ t →
      t < (n + 2) * (requests host defaultInterval config).length →
        P (splayValue (draw t) interval splayPercent)) :
    P (splayAfter host defaultInterval config draw splayPercent db (n + 1) earlier name
      interval) := by
  have hrecalls := recalls_askSplay hdraw splayPercent
  obtain ⟨hvalid, hinterval⟩ := admissible_before hasked (n + 1)
  have hclock : (after (askSplay draw splayPercent)
      (allRequests host defaultInterval config n) ⟨db, 0⟩).clock =
        n * (requests host defaultInterval config).length := by
    rw [hrecalls.clock_after, length_allRequests, Nat.zero_add]
  have hlength : earlier.length + 1 ≤ (requests host defaultInterval config).length := by
    have hle := hasked.length_le
    rwa [List.length_append, List.length_singleton] at hle
  rw [splayAfter, allRequests_succ, List.append_assoc, after_append]
  rw [allRequests_succ, List.append_assoc] at hvalid
  refine hrecalls.value_of_mixed (fun r hr => hvalid r (List.mem_append_right _ hr)) hinterval
    (fun h => hmixed (uniform_append.mp h).1) fun t hle hlt => hfresh t ?_ ?_
  · rwa [hclock] at hle
  · rw [hclock, List.length_append] at hlt
    rw [Nat.add_mul]
    omega

/-- The least value before a time and the greatest one from then on. -/
def lowThenHigh (limit : ℕ) (t : ℕ) (low high : UInt64) : UInt64 := if t < limit then low else high

theorem draws_lowThenHigh (limit : ℕ) : Draws (lowThenHigh limit) := by
  intro t low high hle
  rw [lowThenHigh]
  split
  · exact ⟨UInt64.le_refl _, hle⟩
  · exact ⟨hle, UInt64.le_refl _⟩

/-- With another interval under the name and more than one value to draw, some load gives another
value. -/
theorem exists_splayAfter_ne
    (hasked : earlier ++ [(name, interval)] <+: requests host defaultInterval config)
    (hmixed : ¬Uniform name interval (requests host defaultInterval config))
    (hchoice : (splayBounds interval splayPercent).1 ≠ (splayBounds interval splayPercent).2) :
    ∃ draw, Draws draw ∧ ∃ n,
      splayAfter host defaultInterval config draw splayPercent db n earlier name interval ≠
        splayAfter host defaultInterval config draw splayPercent db 0 earlier name interval := by
  let limit := 2 * (requests host defaultInterval config).length
  have hdraw := draws_lowThenHigh limit
  have hvalue : ∀ t, splayValue (lowThenHigh limit t) interval splayPercent =
      if t < limit then (splayBounds interval splayPercent).1
      else (splayBounds interval splayPercent).2 := by
    intro t
    rw [splayValue_eq]
    exact if_neg hchoice.symm
  have hlow : splayAfter host defaultInterval config (lowThenHigh limit) splayPercent db 1
      earlier name interval = (splayBounds interval splayPercent).1 := by
    refine splayAfter_of_mixed hdraw hasked hmixed (P := fun v => v = _) 0 fun t _ hlt => ?_
    rw [hvalue, if_pos (by omega)]
  have hhigh : splayAfter host defaultInterval config (lowThenHigh limit) splayPercent db 3
      earlier name interval = (splayBounds interval splayPercent).2 := by
    refine splayAfter_of_mixed hdraw hasked hmixed (P := fun v => v = _) 2 fun t hle _ => ?_
    rw [hvalue, if_neg (by omega)]
  by_contra hsame
  push Not at hsame
  apply hchoice
  calc (splayBounds interval splayPercent).1
      = _ := hlow.symm
    _ = _ := hsame _ hdraw 1
    _ = _ := (hsame _ hdraw 3).symm
    _ = (splayBounds interval splayPercent).2 := hhigh

end Values

/-! ### Every sequence of reloads -/

theorem SplayedPack.mapSplays_eq_iff {f f' : Requests → UInt64}
    {packs : List (SplayedPack Requests)} :
    packs.map (SplayedPack.mapSplays f) = packs.map (SplayedPack.mapSplays f') ↔
      ∀ pack ∈ packs, ∀ (name : String) query asked,
        pack.schedule[name]? = some (query, asked) → f asked = f' asked := by
  rw [List.map_inj_left]
  refine forall₂_congr fun pack _ => ?_
  constructor
  · intro h name query asked hquery
    have hget := congrArg (fun p => p.schedule[name]?) h
    simp only [SplayedPack.mapSplays, getElem?_mapSplays, hquery, Option.map_some,
      Option.some.injEq, Prod.mk.injEq, true_and] at hget
    exact hget
  · intro h
    have hschedule : pack.schedule.mapSplays f = pack.schedule.mapSplays f' := by
      apply Std.ExtTreeMap.ext_getElem?
      intro name
      rw [getElem?_mapSplays, getElem?_mapSplays]
      cases hquery : pack.schedule[name]? with
      | none => rfl
      | some query =>
          rw [Option.map_some, Option.map_some, h name query.1 query.2 hquery]
    rw [SplayedPack.mapSplays, SplayedPack.mapSplays, hschedule]

/-- A property of all splayed intervals of a load. -/
theorem forall_mapSplays_iff {f : Requests → UInt64} {packs : List (SplayedPack Requests)}
    {P : ScheduledQuery → UInt64 → Prop} :
    (∀ pack ∈ packs.map (SplayedPack.mapSplays f), ∀ (name : String) query splay,
      pack.schedule[name]? = some (query, splay) → P query splay) ↔
        ∀ pack ∈ packs, ∀ (name : String) query asked,
          pack.schedule[name]? = some (query, asked) → P query (f asked) := by
  rw [List.forall_mem_map]
  refine forall₃_congr fun pack _ name => ?_
  constructor
  · intro h query asked hquery
    exact h query (f asked) (by simp [SplayedPack.mapSplays, hquery])
  · intro h query splay hquery
    rw [SplayedPack.mapSplays, getElem?_mapSplays, Option.map_eq_some_iff] at hquery
    obtain ⟨⟨query', asked⟩, hget, heq⟩ := hquery
    obtain ⟨rfl, rfl⟩ := Prod.mk.inj heq
    exact h _ asked hget

/-- What reloads do to one query. -/
theorem splaysStable_iff_each {schedule_splay_percent : UInt64} {db : Database} :
    SplaysStable host defaultInterval config schedule_splay_percent db ↔
      ∀ pack ∈ notedPacks host defaultInterval config, ∀ (name : String) query asked,
        pack.schedule[name]? = some (query, asked) → ∀ draw, Draws draw → ∀ n,
          let splay := fun n => lastSplay draw (sanePercent schedule_splay_percent)
            (stateAfter host defaultInterval config draw (sanePercent schedule_splay_percent) db n)
            asked
          splay n = splay 0 ∧
            WithinBounds query.interval (sanePercent schedule_splay_percent) (splay n) := by
  constructor
  · intro h pack hpack name query asked hquery draw hdraw n
    obtain ⟨hsame, hwithin⟩ := h draw hdraw n
    rw [reloaded_eq, reloaded_eq, SplayedPack.mapSplays_eq_iff] at hsame
    rw [reloaded_eq] at hwithin
    exact ⟨hsame pack hpack name query asked hquery,
      forall_mapSplays_iff.mp hwithin pack hpack name query asked hquery⟩
  · intro h draw hdraw n
    dsimp only
    rw [reloaded_eq, reloaded_eq, SplayedPack.mapSplays_eq_iff]
    refine ⟨fun pack hpack name query asked hquery =>
      (h pack hpack name query asked hquery draw hdraw n).1, ?_⟩
    exact forall_mapSplays_iff.mpr fun pack hpack name query asked hquery =>
      (h pack hpack name query asked hquery draw hdraw n).2

/-- A query that shares its name with one of another interval, and has values to choose from. -/
theorem not_splaysStable_of_mixed {schedule_splay_percent : UInt64} {db : Database}
    {pack : SplayedPack Requests} (hpack : pack ∈ notedPacks host defaultInterval config)
    {name : String} {query : ScheduledQuery} {asked : Requests}
    (hquery : pack.schedule[name]? = some (query, asked))
    (hmixed : ¬Uniform name query.interval (requests host defaultInterval config))
    (hchoice : (splayBounds query.interval (sanePercent schedule_splay_percent)).1 ≠
      (splayBounds query.interval (sanePercent schedule_splay_percent)).2) :
    ¬SplaysStable host defaultInterval config schedule_splay_percent db := by
  intro h
  obtain ⟨hasked, earlier, rfl⟩ :=
    (loadSplayed_noted host defaultInterval config).2 pack hpack name query asked hquery
  obtain ⟨draw, hdraw, n, hne⟩ := exists_splayAfter_ne hasked hmixed hchoice
  have hsame := (splaysStable_iff_each.mp h pack hpack name query _ hquery draw hdraw n).1
  simp only [lastSplay_stateAfter] at hsame
  exact hne hsame

/-- The splayed interval of every query is the same after every reload, and within its bounds, if
and only if all queries of its name that a load admits have its interval, or its interval leaves
one value to draw; and a value recorded for it before the first load, and not replaced by then,
is within the bounds. -/
theorem splaysStable_iff (host : Host) (defaultInterval : UInt64) (config : List PackSource)
    (schedule_splay_percent : UInt64) (db : Database) :
    SplaysStable host defaultInterval config schedule_splay_percent db ↔
      SplaysSettled host defaultInterval config schedule_splay_percent db := by
  constructor
  · intro h pack hpack name query asked hquery
    refine ⟨?_, fun huniform splay hrecorded => ?_⟩
    · by_contra hbad
      obtain ⟨hmixed, hchoice⟩ := not_or.mp hbad
      exact not_splaysStable_of_mixed hpack hquery hmixed hchoice h
    · have hdraw := draws_lowThenHigh 0
      have hfirst := (splaysStable_iff_each.mp h pack hpack name query asked hquery _ hdraw 0).2
      obtain ⟨hasked, earlier, rfl⟩ :=
        (loadSplayed_noted host defaultInterval config).2 pack hpack name query asked hquery
      simp only [lastSplay_stateAfter] at hfirst
      rwa [splayAfter_zero_of_recorded hdraw hasked huniform hrecorded] at hfirst
  · intro h
    refine splaysStable_iff_each.mpr fun pack hpack name query asked hquery draw hdraw n => ?_
    obtain ⟨hone, hrecorded⟩ := h pack hpack name query asked hquery
    obtain ⟨hasked, earlier, rfl⟩ :=
      (loadSplayed_noted host defaultInterval config).2 pack hpack name query asked hquery
    simp only [lastSplay_stateAfter]
    have hwithin := withinBounds_splayAfter hdraw hasked hrecorded
    refine ⟨?_, hwithin n⟩
    rcases hone with huniform | hfixed
    · obtain ⟨splay, hsplay⟩ := splayAfter_of_uniform hdraw hasked huniform
      rw [hsplay n, hsplay 0]
    · exact (hwithin n).eq_of_fixed (hwithin 0) hfixed

/-- Two packs with a query of one name, every minute in one and every hour in the other. -/
def sharedNames : List PackSource :=
  [⟨"a", "osquery.conf", .obj [("queries", .obj [("users",
      .obj [("query", .str "SELECT * FROM users"), ("interval", .int 60)])])]⟩,
    ⟨"b", "osquery.conf", .obj [("queries", .obj [("users",
      .obj [("query", .str "SELECT * FROM users"), ("interval", .int 3600)])])]⟩]

def linuxHost : Host := ⟨0, true, true, "linux", "3.3.2", fun _ _ => 0⟩

/-- From an empty database and with the default percent. -/
theorem not_splaysStable_sharedNames : ¬SplaysStable linuxHost 3600 sharedNames 10 ∅ := by
  have hrequests : requests linuxHost 3600 sharedNames = [("users", 60), ("users", 3600)] := by
    decide +kernel
  obtain ⟨pack, hpack, asked, hquery⟩ : ∃ pack ∈ notedPacks linuxHost 3600 sharedNames, ∃ asked,
      pack.schedule["users"]? =
        some (⟨"SELECT * FROM users", 60, ⟨false, true, true⟩⟩, asked) :=
    ⟨_, List.mem_cons_self .., _, rfl⟩
  have hbounds : splayBounds 60 (sanePercent 10) = (54, 66) := by decide +kernel
  refine not_splaysStable_of_mixed hpack hquery ?_ ?_
  · rw [hrequests]
    exact fun h => absurd (h ("users", 3600) (by simp) rfl) (by decide)
  · rw [hbounds]
    decide

end Osquery.Config
