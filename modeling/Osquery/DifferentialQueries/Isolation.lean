import Osquery.DifferentialQueries.Record

/-!
# Isolation of queries

All queries share the queries domain, and a key is a name with a suffix or a
prefix. A call writes no other keys than those of its own query, so two names
are isolated when their keys are disjoint. Distinct names do not make the keys
disjoint: a name may be another name with `epoch`, `counter` or `query.`
attached. Every such overlap is visible already on the empty database.
-/

namespace Osquery.DifferentialQueries

open Foundation.AtomicProgram Foundation.JsonText Foundation.Numeral
open Core.BackingStore Core.Rows

/-- What the reads of a query observe. -/
structure Observation where
  previousResults : Option QueryDataSet
  previousEpoch : Except Failure UInt64
  counter : Except Failure UInt64
  text : String
  inDatabase : Bool
  deriving DecidableEq

def observe (json : JsonLibrary) (name : String) (db : Database) : Observation where
  previousResults := ((getPreviousQueryResults json ⟨name, ""⟩).run db).1.toOption
  previousEpoch := ((getPreviousEpoch ⟨name, ""⟩).run db).1
  counter := ((getQueryCounter ⟨name, ""⟩ false).run db).1
  text := ((readValue kQueries ("query." ++ name) : Prog DbOp String).run db).1
  inDatabase := ((isQueryNameInDatabase ⟨name, ""⟩).run db).1

variable (json : JsonLibrary)

/-- The reads of a query depend on its record only. -/
theorem observe_eq (name : String) (db : Database) :
    observe json name db =
      { previousResults := (view db name).results.bind fun raw =>
          (deserializeQueryDataJSON json raw).toOption
        previousEpoch := storedNumber (view db name).epoch
        counter := nextCounter (view db name).counter
        text := (view db name).text.getD ""
        inDatabase := (view db name).results.isSome } := by
  simp only [observe, (run_getPreviousQueryResults json ⟨name, ""⟩ db).2, run_getPreviousEpoch,
    run_getQueryCounter, run_readValue, run_isQueryNameInDatabase, Bool.false_eq_true, if_false]
  rfl

/-! ### A call writes the keys of its query -/

section Footprint

variable (q : Query)

private abbrev Footprint {α : Type} (p : Prog DbOp α) : Prop :=
  p.Only (DbOp.WritesWithin kQueries (queryKeys q.name))

private theorem footprint_get (key : String) :
    Footprint q (getDatabaseValue kQueries key : Prog DbOp _) :=
  Prog.only_perform trivial

private theorem footprint_set {key : String} (h : key ∈ queryKeys q.name) (value : String) :
    Footprint q (setDatabaseValue kQueries key value : Prog DbOp _) := by
  refine Prog.only_perform ⟨rfl, ?_⟩
  intro p hp
  rw [List.mem_singleton.mp hp]
  exact h

private theorem footprint_saveQuery : Footprint q (saveQuery q.name q.query) :=
  Prog.only_bind (footprint_set q (by simp [queryKeys]) _) fun _ => Prog.only_pure _

private theorem footprint_classify (epoch : UInt64) (calculate_diff : Bool) :
    Footprint q (classify q epoch calculate_diff) := by
  refine Prog.only_bind ?_ fun known => ?_
  · exact Prog.only_bind (Prog.only_bind (Prog.only_perform trivial) fun _ => Prog.only_pure _)
      fun _ => Prog.only_pure _
  · split
    · exact Prog.only_bind (footprint_saveQuery q) fun _ => Prog.only_pure _
    · refine Prog.only_bind ?_ fun previous => ?_
      · refine Prog.only_bind (footprint_get q _) fun raw => ?_
        cases raw <;> exact Prog.only_pure _
      · cases previous with
        | error e => exact Prog.only_pure _
        | ok previous =>
            dsimp only
            split
            · exact Prog.only_pure _
            · refine Prog.only_bind (Prog.only_bind (Prog.only_map (footprint_get q _))
                fun _ => Prog.only_pure _) fun new => ?_
              split
              · exact Prog.only_bind (footprint_saveQuery q) fun _ => Prog.only_pure _
              · exact Prog.only_pure _

private theorem footprint_differential (rows : QueryData) (dr : DiffResults)
    (fresh calculate_diff : Bool) :
    Footprint q (differential json q rows dr fresh calculate_diff) := by
  rw [differential]
  split
  · refine Prog.only_bind ?_ fun previous => ?_
    · refine Prog.only_bind (footprint_get q _) fun raw => ?_
      cases raw with
      | error status => exact Prog.only_pure _
      | ok raw =>
          dsimp only
          split <;> exact Prog.only_pure _
    · cases previous <;> exact Prog.only_pure _
  · exact Prog.only_pure _

private theorem footprint_replaceResults (rows : QueryData) (epoch : UInt64) :
    Footprint q (replaceResults json q rows epoch) := by
  refine Prog.only_bind (footprint_set q (by simp [queryKeys]) _) fun status => ?_
  cases status with
  | error status => exact Prog.only_pure _
  | ok _ =>
      refine Prog.only_bind (footprint_set q (by simp [queryKeys]) _) fun status => ?_
      cases status <;> exact Prog.only_pure _

private theorem footprint_update (rows : QueryData) (epoch : UInt64) (dr : DiffResults)
    (fresh new calculate_diff : Bool) :
    Footprint q (update json q rows epoch dr fresh new calculate_diff) := by
  refine Prog.only_bind (footprint_differential json q _ _ _ _) fun result => ?_
  cases result with
  | error e => exact Prog.only_pure _
  | ok out =>
      refine Prog.only_bind ?_ fun counter => ?_
      · rw [getQueryCounter]
        split
        · exact Prog.only_pure _
        · refine Prog.only_bind (footprint_get q _) fun raw => ?_
          cases raw <;> exact Prog.only_pure _
      · cases counter with
        | error e => exact Prog.only_pure _
        | ok counter =>
            refine Prog.only_bind (footprint_set q (by simp [queryKeys]) _) fun status => ?_
            cases status with
            | error status => exact Prog.only_pure _
            | ok _ =>
                dsimp only
                split
                · refine Prog.only_bind (footprint_replaceResults json q _ _) fun result => ?_
                  cases result <;> exact Prog.only_pure _
                · exact Prog.only_pure _

/-- Whatever its outcome, a call writes keys of its own query only. -/
theorem addNewResults_writesWithin (rows : QueryData) (epoch : UInt64) (dr : DiffResults)
    (calculate_diff : Bool) :
    (addNewResults json q rows epoch dr calculate_diff).Only
      (DbOp.WritesWithin kQueries (queryKeys q.name)) := by
  refine Prog.only_bind (footprint_classify q epoch calculate_diff) fun result => ?_
  cases result with
  | error e => exact Prog.only_pure _
  | ok flags => exact footprint_update json q rows epoch dr _ _ _

end Footprint

/-- A query whose keys a call does not write keeps its record. -/
theorem view_addNewResults {q : Query} {b : String}
    (h : (queryKeys q.name).Disjoint (queryKeys b)) (rows : QueryData) (epoch : UInt64)
    (dr : DiffResults) (calculate_diff : Bool) (db : Database) :
    view ((addNewResults json q rows epoch dr calculate_diff).run db).2 b = view db b := by
  have hkeep : ∀ key ∈ queryKeys b, lookup
      ((addNewResults json q rows epoch dr calculate_diff).run db).2 kQueries key =
        lookup db kQueries key := fun key hkey =>
    lookup_run_of_writesWithin (addNewResults_writesWithin json q rows epoch dr calculate_diff)
      (fun hq => h hq hkey) db
  ext1
  · exact hkeep _ (by simp [queryKeys])
  · exact hkeep _ (by simp [queryKeys])
  · exact hkeep _ (by simp [queryKeys])
  · exact hkeep _ (by simp [queryKeys])

/-! ### Every overlap of keys is visible -/

/-- The first call of a name writes all four values. -/
theorem view_firstRun {q : Query} {db : Database} (h : (view db q.name).results = none)
    (rows : QueryData) (epoch : UInt64) (dr : DiffResults) (calculate_diff : Bool) :
    view ((addNewResults json q rows epoch dr calculate_diff).run db).2 q.name =
      { results := some (serializeQueryDataJSON json rows)
        epoch := some (toText epoch.toNat)
        counter := some (toText 0)
        text := some q.query } := by
  simp [addNewResults, classify, h, run_update_fresh]

theorem view_empty (name : String) : view ∅ name = ⟨none, none, none, none⟩ := by
  simp [view, lookup, Ephemeral.domainOf]

theorem parseStored_of_head {s : String} {c : Char} {rest : List Char} (hs : s.toList = c :: rest)
    (hspace : isSpace c = false) (hminus : c ≠ '-') (hplus : c ≠ '+') (hd : c.isDigit = false) :
    parseStored s = .error (.exception .invalidArgument) := by
  simp [parseStored, stoull, leading_of_head hs hspace hminus hplus hd]

/-- Stored results are no numeral, and not empty. -/
theorem serialize_cons (rows : QueryData) :
    ∃ rest, (serializeQueryDataJSON json rows).toList = '[' :: rest := by
  have h := json.write_arr_head (serializeQueryData rows [] [])
  rw [← toString_eq_write] at h
  exact List.head?_eq_some_iff.mp h

private theorem append_inj_last {a b s t : String} (h : a ++ s = b ++ t) :
    (a.toList ++ s.toList).getLast? = (b.toList ++ t.toList).getLast? := by
  rw [← String.toList_append, ← String.toList_append, h]

theorem epoch_ne_other_counter (a b : String) : a ++ "epoch" ≠ b ++ "counter" := by
  intro h
  have hl := append_inj_last h
  simp at hl

/-- A query that reads as unknown shares no key with a query whose four values
were written by a first call. -/
private theorem disjoint_of_unknown {a b : String} (hab : a ≠ b) {db : Database}
    (ha : view db a = ⟨some (serializeQueryDataJSON json []), some (toText 0), some (toText 0),
      some "select"⟩)
    (hepoch : storedNumber (view db b).epoch = .ok 0)
    (hcounter : nextCounter (view db b).counter = .ok 0) (htext : (view db b).text.getD "" = "")
    (hknown : (view db b).results.isSome = false) :
    (queryKeys a).Disjoint (queryKeys b) := by
  obtain ⟨rest, hrest⟩ := serialize_cons json []
  have hresults : lookup db kQueries a = some (serializeQueryDataJSON json []) :=
    congrArg QueryRecord.results ha
  have hnumber : lookup db kQueries (a ++ "epoch") = some (toText 0) :=
    congrArg QueryRecord.epoch ha
  have hcount : lookup db kQueries (a ++ "counter") = some (toText 0) :=
    congrArg QueryRecord.counter ha
  have hquery : lookup db kQueries ("query." ++ a) = some "select" := congrArg QueryRecord.text ha
  have hser : parseStored (serializeQueryDataJSON json []) =
      .error (.exception .invalidArgument) :=
    parseStored_of_head hrest (by decide) (by decide) (by decide) (by decide)
  have hsel : parseStored "select" = .error (.exception .invalidArgument) := by decide
  simp only [view] at hepoch hcounter htext hknown
  intro key hka hkb
  simp only [queryKeys, List.mem_cons, List.not_mem_nil, or_false] at hka hkb
  rcases hkb with rfl | rfl | rfl | rfl
  · rcases hka with rfl | rfl | rfl | rfl
    · exact hab rfl
    · simp [hnumber] at hknown
    · simp [hcount] at hknown
    · simp [hquery] at hknown
  · rcases hka with h | h | h | h
    · rw [h, hresults] at hepoch
      simp [storedNumber, hser] at hepoch
    · exact hab ((String.append_left_inj _).mp h).symm
    · exact epoch_ne_other_counter _ _ h
    · rw [h, hquery] at hepoch
      simp [storedNumber, hsel] at hepoch
  · rcases hka with h | h | h | h
    · rw [h, hresults] at hcounter
      simp [nextCounter, hser, Except.map] at hcounter
    · exact epoch_ne_other_counter _ _ h.symm
    · exact hab ((String.append_left_inj _).mp h).symm
    · rw [h, hquery] at hcounter
      simp [nextCounter, hsel, Except.map] at hcounter
  · rcases hka with h | h | h | h
    · rw [h, hresults, Option.getD_some] at htext
      simp [htext] at hrest
    · rw [h, hnumber] at htext
      exact toText_ne_empty 0 htext
    · rw [h, hcount] at htext
      exact toText_ne_empty 0 htext
    · exact hab ((String.append_right_inj _).mp h).symm

/-- Two distinct names are isolated exactly when their keys are disjoint. -/
theorem addNewResults_isolation_iff {a b : String} (hab : a ≠ b) :
    (∀ (db : Database) (query : String) (rows : QueryData) (epoch : UInt64) (dr : DiffResults)
        (calculate_diff : Bool),
      observe json b ((addNewResults json ⟨a, query⟩ rows epoch dr calculate_diff).run db).2 =
        observe json b db) ↔
      (queryKeys a).Disjoint (queryKeys b) := by
  constructor
  · intro hall
    have hobs := hall ∅ "select" [] 0 {} true
    have hnone : (view ∅ (Query.mk a "select").name).results = none := by rw [view_empty]
    have hview := view_firstRun json hnone [] 0 {} true
    rw [observe_eq, observe_eq, view_empty, Observation.mk.injEq] at hobs
    obtain ⟨-, hepoch, hcounter, htext, hknown⟩ := hobs
    exact disjoint_of_unknown json hab hview hepoch hcounter htext hknown
  · intro h db query rows epoch dr calculate_diff
    rw [observe_eq, observe_eq, view_addNewResults json h]

theorem addNewResults_isolation_iff_first_second :
    (queryKeys "first").Disjoint (queryKeys "second") ∧
      observe reference "second" ((addNewResults reference ⟨"first", "select 1"⟩ [] 0 {} true).run
        ∅).2 = observe reference "second" ∅ := by
  have h : (queryKeys "first").Disjoint (queryKeys "second") := by
    unfold List.Disjoint
    decide
  exact ⟨h, (addNewResults_isolation_iff reference (by decide)).mpr h ∅ "select 1" [] 0 {} true⟩

/-- The epoch of `x` is stored where the results of `xepoch` are. -/
theorem addNewResults_visible_to_xepoch :
    ¬∀ a b : String, a ≠ b → ∀ (db : Database) (query : String) (rows : QueryData)
        (epoch : UInt64) (dr : DiffResults) (calculate_diff : Bool),
      observe reference b ((addNewResults reference ⟨a, query⟩ rows epoch dr
        calculate_diff).run db).2 = observe reference b db := by
  intro hall
  have h := hall "x" "xepoch" (by decide) ∅ "select 1" [] 0 {} true
  exact absurd h (by decide +kernel)

end Osquery.DifferentialQueries
