import Osquery.DifferentialQueries.Query

/-!
# The stored record of a query

The four values of a query live under four keys of one flat domain. The keys
of one query never coincide, so a call acts on them as on the fields of a
record. `Call` lists everything a successful differential call can do to that
record, and `call_of_run` connects it with the program.

## Implementation notes

The in-memory plugin answers every write with success. A call therefore fails
only on a stored numeral or on stored results that cannot be read.
-/

namespace Osquery.DifferentialQueries

open Foundation.AtomicProgram Foundation.JsonText Foundation.Numeral
open Core.BackingStore Core.Rows

/-- The keys of a query in the queries domain. -/
def queryKeys (name : String) : List String :=
  [name, name ++ "epoch", name ++ "counter", "query." ++ name]

/-- What is stored for a query. -/
@[ext] structure QueryRecord where
  results : Option String
  epoch : Option String
  counter : Option String
  text : Option String
  deriving DecidableEq

def view (db : Database) (name : String) : QueryRecord where
  results := lookup db kQueries name
  epoch := lookup db kQueries (name ++ "epoch")
  counter := lookup db kQueries (name ++ "counter")
  text := lookup db kQueries ("query." ++ name)

/-- A stored numeral; a missing one counts as zero. -/
def storedNumber (raw : Option String) : Except Failure UInt64 :=
  match raw with
  | some raw => parseStored raw
  | none => .ok 0

/-- The counter after a run that continues the previous one. -/
def nextCounter (raw : Option String) : Except Failure UInt64 :=
  match raw with
  | some raw => (parseStored raw).map (· + 1)
  | none => .ok 0

/-- Everything a successful call with a differential can do to the record of
its query. -/
inductive Call (json : JsonLibrary) (q : Query) (rows : QueryData) (epoch : UInt64)
    (dr : DiffResults) : QueryRecord → UInt64 → DiffResults → QueryRecord → Prop
  | firstRun {r : QueryRecord} (hr : r.results = none) :
      Call json q rows epoch dr r 0 { dr with added := rows }
        { results := some (serializeQueryDataJSON json rows)
          epoch := some (toText epoch.toNat)
          counter := some (toText 0)
          text := some q.query }
  | newEpoch {r : QueryRecord} {previous : UInt64} (hr : r.results.isSome = true)
      (he : storedNumber r.epoch = .ok previous) (hne : previous ≠ epoch) :
      Call json q rows epoch dr r 0 { dr with added := rows }
        { r with
          results := some (serializeQueryDataJSON json rows)
          epoch := some (toText epoch.toNat)
          counter := some (toText 0) }
  | unchanged {r : QueryRecord} {raw : String} {previous_qd : QueryDataSet} {counter : UInt64}
      {text : Option String} (hr : r.results = some raw) (he : storedNumber r.epoch = .ok epoch)
      (hd : deserializeQueryDataJSON json raw = .ok previous_qd)
      (ht : text.getD "" = q.query)
      (hc : if r.text.getD "" = q.query then nextCounter r.counter = .ok counter else counter = 0)
      (ha : (diff previous_qd rows).added = []) (hm : (diff previous_qd rows).removed = []) :
      Call json q rows epoch dr r counter (diff previous_qd rows)
        { r with counter := some (toText counter.toNat), text := text }
  | changed {r : QueryRecord} {raw : String} {previous_qd : QueryDataSet} {counter : UInt64}
      {text : Option String} (hr : r.results = some raw) (he : storedNumber r.epoch = .ok epoch)
      (hd : deserializeQueryDataJSON json raw = .ok previous_qd)
      (ht : text.getD "" = q.query)
      (hc : if r.text.getD "" = q.query then nextCounter r.counter = .ok counter else counter = 0) :
      Call json q rows epoch dr r counter (diff previous_qd rows)
        { results := some (serializeQueryDataJSON json rows)
          epoch := some (toText epoch.toNat)
          counter := some (toText counter.toNat)
          text := text }

/-! ### The keys of one query are distinct -/

private theorem append_ne (name : String) {s : String} (hs : s.length ≠ 0) : name ++ s ≠ name := by
  intro h
  have hl := congrArg String.length h
  rw [String.length_append] at hl
  omega

private theorem append_ne_append (name : String) {s t : String} (h : s.length ≠ t.length) :
    name ++ s ≠ name ++ t := by
  intro heq
  have hl := congrArg String.length heq
  rw [String.length_append, String.length_append] at hl
  omega

private theorem prepend_ne (name : String) {s t : String} (h : s.length ≠ t.length) :
    s ++ name ≠ name ++ t := by
  intro heq
  have hl := congrArg String.length heq
  rw [String.length_append, String.length_append] at hl
  omega

@[simp] theorem name_ne_epoch (name : String) : name ++ "epoch" ≠ name := append_ne name (by decide)

@[simp] theorem name_ne_counter (name : String) : name ++ "counter" ≠ name :=
  append_ne name (by decide)

@[simp] theorem name_ne_text (name : String) : "query." ++ name ≠ name := by
  have h := prepend_ne name (s := "query.") (t := "") (by decide)
  rwa [String.append_empty] at h

@[simp] theorem epoch_ne_counter (name : String) : name ++ "epoch" ≠ name ++ "counter" :=
  append_ne_append name (by decide)

@[simp] theorem text_ne_epoch (name : String) : "query." ++ name ≠ name ++ "epoch" :=
  prepend_ne name (by decide)

@[simp] theorem text_ne_counter (name : String) : "query." ++ name ≠ name ++ "counter" :=
  prepend_ne name (by decide)

/-! ### A write of one value changes one field -/

@[simp] theorem view_setResults (db : Database) (name v : String) :
    view (Ephemeral.setValue db kQueries name v) name =
      { view db name with results := some v } := by
  simp [view, (name_ne_epoch name).symm, (name_ne_counter name).symm, (name_ne_text name).symm]

@[simp] theorem view_setEpoch (db : Database) (name v : String) :
    view (Ephemeral.setValue db kQueries (name ++ "epoch") v) name =
      { view db name with epoch := some v } := by
  simp [view, (text_ne_epoch name).symm]

@[simp] theorem view_setCounter (db : Database) (name v : String) :
    view (Ephemeral.setValue db kQueries (name ++ "counter") v) name =
      { view db name with counter := some v } := by
  simp [view, (epoch_ne_counter name).symm, (text_ne_counter name).symm]

@[simp] theorem view_setText (db : Database) (name v : String) :
    view (Ephemeral.setValue db kQueries ("query." ++ name) v) name =
      { view db name with text := some v } := by
  simp [view]

/-! ### Sequential runs of the parts -/

@[simp] theorem run_getDatabaseValue (key : String) (db : Database) :
    (getDatabaseValue kQueries key : Prog DbOp _).run db = (Ephemeral.get db kQueries key, db) :=
  rfl

@[simp] theorem run_setDatabaseValue (key value : String) (db : Database) :
    (setDatabaseValue kQueries key value : Prog DbOp _).run db =
      (.ok (), Ephemeral.setValue db kQueries key value) :=
  rfl

@[simp] theorem run_readValue (key : String) (db : Database) :
    (readValue kQueries key : Prog DbOp _).run db = ((lookup db kQueries key).getD "", db) := by
  rw [readValue, Prog.run_map, run_getDatabaseValue, toOption_get]

@[simp] theorem run_saveQuery (name query : String) (db : Database) :
    (saveQuery name query).run db = ((), Ephemeral.setValue db kQueries ("query." ++ name) query) :=
  rfl

@[simp] theorem run_isNewQuery (q : Query) (db : Database) :
    (isNewQuery q).run db = (decide ((view db q.name).text.getD "" ≠ q.query), db) := by
  rw [isNewQuery, Prog.run_bind, run_readValue]
  rfl

@[simp] theorem run_isQueryNameInDatabase (q : Query) (db : Database) :
    (isQueryNameInDatabase q).run db = ((view db q.name).results.isSome, db) := by
  have hscan : (getStoredQueryNames).run db = ((Ephemeral.domainOf db kQueries).keys, db) := by
    simp only [getStoredQueryNames, Prog.run_bind]
    change (Ephemeral.scan db kQueries "" 0, db) = _
    simp [Ephemeral.scan]
  rw [isQueryNameInDatabase, Prog.run_bind, hscan]
  have hmem := mem_keys_iff db kQueries q.name
  have hb : (Ephemeral.domainOf db kQueries).keys.contains q.name =
      (lookup db kQueries q.name).isSome := by
    rw [Bool.eq_iff_iff, List.contains_iff_mem]
    exact hmem
  change ((Ephemeral.domainOf db kQueries).keys.contains q.name, db) = _
  rw [hb]
  rfl

@[simp] theorem run_getPreviousEpoch (q : Query) (db : Database) :
    (getPreviousEpoch q).run db = (storedNumber (view db q.name).epoch, db) := by
  simp only [getPreviousEpoch, Prog.run_bind, run_getDatabaseValue, view, ← toOption_get]
  cases Ephemeral.get db kQueries (q.name ++ "epoch") <;> rfl

@[simp] theorem run_getQueryCounter (q : Query) (new_query : Bool) (db : Database) :
    (getQueryCounter q new_query).run db =
      (if new_query then .ok 0 else nextCounter (view db q.name).counter, db) := by
  cases new_query with
  | true => rfl
  | false =>
      simp only [getQueryCounter, Bool.false_eq_true, if_false, Prog.run_bind,
        run_getDatabaseValue, view, ← toOption_get]
      cases Ephemeral.get db kQueries (q.name ++ "counter") <;> rfl

/-- Stored results that are missing or cannot be read give an error. -/
theorem run_getPreviousQueryResults (json : JsonLibrary) (q : Query) (db : Database) :
    ((getPreviousQueryResults json q).run db).2 = db ∧
      ((getPreviousQueryResults json q).run db).1.toOption =
        (view db q.name).results.bind fun raw => (deserializeQueryDataJSON json raw).toOption := by
  simp only [getPreviousQueryResults, Prog.run_bind, run_getDatabaseValue, view, ← toOption_get]
  cases Ephemeral.get db kQueries q.name with
  | error status => exact ⟨rfl, rfl⟩
  | ok raw =>
      cases h : deserializeQueryDataJSON json raw with
      | error status => simp [h, Except.toOption]
      | ok results => simp [h, Except.toOption]

@[simp] theorem run_replaceResults (json : JsonLibrary) (q : Query) (target_gd : QueryData)
    (current_epoch : UInt64) (db : Database) :
    (replaceResults json q target_gd current_epoch).run db =
      (.ok (), Ephemeral.setValue
        (Ephemeral.setValue db kQueries q.name (serializeQueryDataJSON json target_gd))
        kQueries (q.name ++ "epoch") (toText current_epoch.toNat)) :=
  rfl

/-! ### A successful call -/

variable {json : JsonLibrary} {q : Query} {rows : QueryData} {epoch : UInt64}
  {dr dr' : DiffResults} {db db' : Database} {counter : UInt64}

/-- How the first part of a call ends: an unknown name, another epoch, another
text, or none of these. -/
inductive Classified (q : Query) (epoch : UInt64) (db : Database) : Bool → Bool → Database → Prop
  | unknownName (hr : (view db q.name).results = none) :
      Classified q epoch db true false
        (Ephemeral.setValue db kQueries ("query." ++ q.name) q.query)
  | otherEpoch {previous : UInt64} (hr : (view db q.name).results.isSome = true)
      (he : storedNumber (view db q.name).epoch = .ok previous) (hne : previous ≠ epoch) :
      Classified q epoch db true false db
  | otherText (hr : (view db q.name).results.isSome = true)
      (he : storedNumber (view db q.name).epoch = .ok epoch)
      (ht : (view db q.name).text.getD "" ≠ q.query) :
      Classified q epoch db false true
        (Ephemeral.setValue db kQueries ("query." ++ q.name) q.query)
  | same (hr : (view db q.name).results.isSome = true)
      (he : storedNumber (view db q.name).epoch = .ok epoch)
      (ht : (view db q.name).text.getD "" = q.query) :
      Classified q epoch db false false db

theorem classified_of_run {fresh new : Bool}
    (h : (classify q epoch true).run db = (.ok (fresh, new), db')) :
    Classified q epoch db fresh new db' := by
  rw [classify, Prog.run_bind, run_isQueryNameInDatabase] at h
  cases hr : (view db q.name).results.isSome with
  | false =>
      simp only [hr, Bool.not_false, if_true, Prog.run_bind, run_saveQuery, Prog.run_pure,
        Prod.mk.injEq, Except.ok.injEq] at h
      obtain ⟨⟨rfl, rfl⟩, rfl⟩ := h
      exact .unknownName (by simpa using hr)
  | true =>
      simp only [hr, Bool.not_true, Bool.false_eq_true, if_false, Prog.run_bind,
        run_getPreviousEpoch] at h
      cases he : storedNumber (view db q.name).epoch with
      | error e => simp [he] at h
      | ok previous =>
          simp only [he] at h
          by_cases hne : previous ≠ epoch
          · simp only [if_pos hne, Prog.run_pure, Prod.mk.injEq, Except.ok.injEq] at h
            obtain ⟨⟨rfl, rfl⟩, rfl⟩ := h
            exact .otherEpoch hr he hne
          · obtain rfl : previous = epoch := not_ne_iff.mp hne
            simp only [if_neg hne, Prog.run_bind, run_isNewQuery] at h
            by_cases ht : (view db q.name).text.getD "" = q.query
            · simp [ht] at h
              obtain ⟨⟨rfl, rfl⟩, rfl⟩ := h
              exact .same hr he ht
            · simp [ht] at h
              obtain ⟨⟨rfl, rfl⟩, rfl⟩ := h
              exact .otherText hr he ht

/-- Unless the results are fresh, the differential with the stored results is taken. -/
theorem differential_of_run {d : DiffResults} {update : Bool}
    (h : (differential json q rows dr false true).run db = (.ok (d, update), db')) :
    ∃ raw previous_qd, (view db q.name).results = some raw ∧
      deserializeQueryDataJSON json raw = .ok previous_qd ∧ d = diff previous_qd rows ∧
      update = (!d.added.isEmpty || !d.removed.isEmpty) ∧ db' = db := by
  obtain ⟨hdb, hres⟩ := run_getPreviousQueryResults json q db
  simp only [differential, Bool.not_false, Bool.and_self, if_true, Prog.run_bind] at h
  rw [hdb] at h
  cases hp : ((getPreviousQueryResults json q).run db).1 with
  | error e => simp [hp] at h
  | ok previous_qd =>
      simp only [hp, Prog.run_pure, Prod.mk.injEq, Except.ok.injEq] at h
      obtain ⟨⟨rfl, rfl⟩, rfl⟩ := h
      rw [hp] at hres
      obtain ⟨raw, hraw, hd⟩ := Option.bind_eq_some_iff.mp hres.symm
      refine ⟨raw, previous_qd, hraw, ?_, rfl, rfl, rfl⟩
      cases he : deserializeQueryDataJSON json raw with
      | error e => simp [he, Except.toOption] at hd
      | ok out =>
          rw [he] at hd
          exact congrArg _ (Option.some.inj hd)

/-- Fresh results replace the record and reset the counter. -/
theorem run_update_fresh (new calculate_diff : Bool) :
    (update json q rows epoch dr true new calculate_diff).run db =
      (.ok (0, { dr with added := rows }), Ephemeral.setValue (Ephemeral.setValue
        (Ephemeral.setValue db kQueries (q.name ++ "counter") (toText 0)) kQueries q.name
          (serializeQueryDataJSON json rows)) kQueries (q.name ++ "epoch")
            (toText epoch.toNat)) :=
  rfl

/-- A differential call sets the counter, and the results when they changed. -/
theorem update_of_run {new : Bool}
    (h : (update json q rows epoch dr false new true).run db = (.ok (counter, dr'), db')) :
    ∃ raw previous_qd, (view db q.name).results = some raw ∧
      deserializeQueryDataJSON json raw = .ok previous_qd ∧ dr' = diff previous_qd rows ∧
      (if new then .ok 0 else nextCounter (view db q.name).counter) = .ok counter ∧
      view db' q.name =
        if (!dr'.added.isEmpty || !dr'.removed.isEmpty) = true then
          { view db q.name with
            results := some (serializeQueryDataJSON json rows)
            epoch := some (toText epoch.toNat)
            counter := some (toText counter.toNat) }
        else { view db q.name with counter := some (toText counter.toNat) } := by
  rw [update, Prog.run_bind] at h
  cases hd : (differential json q rows dr false true).run db with
  | mk result db₁ =>
      rw [hd] at h
      cases result with
      | error e => simp at h
      | ok out =>
          obtain ⟨d, update_db⟩ := out
          obtain ⟨raw, previous_qd, hraw, hdes, rfl, rfl, rfl⟩ := differential_of_run hd
          simp only [Prog.run_bind, run_getQueryCounter, Bool.false_or] at h
          cases hc : (if new = true then .ok 0 else nextCounter (view db₁ q.name).counter) with
          | error e => simp [hc] at h
          | ok c =>
              simp only [hc, Prog.run_bind, run_setDatabaseValue, Prog.run_ite,
                run_replaceResults, Prog.run_pure] at h
              refine ⟨raw, previous_qd, hraw, hdes, ?_⟩
              split at h
              · rename_i hu
                simp only [Prod.mk.injEq, Except.ok.injEq] at h
                obtain ⟨⟨rfl, rfl⟩, rfl⟩ := h
                exact ⟨rfl, rfl, by rw [if_pos hu]; simp⟩
              · rename_i hu
                simp only [Prod.mk.injEq, Except.ok.injEq] at h
                obtain ⟨⟨rfl, rfl⟩, rfl⟩ := h
                exact ⟨rfl, rfl, by rw [if_neg hu]; simp⟩

private theorem call_of_update {r : QueryRecord} {text : Option String} {new : Bool}
    (hview : view db q.name = { r with text := text }) (he : storedNumber r.epoch = .ok epoch)
    (ht : text.getD "" = q.query) (hnew : new = decide (r.text.getD "" ≠ q.query))
    (h : (update json q rows epoch dr false new true).run db = (.ok (counter, dr'), db')) :
    Call json q rows epoch dr r counter dr' (view db' q.name) := by
  obtain ⟨raw, previous_qd, hraw, hdes, rfl, hc, hview'⟩ := update_of_run h
  rw [hview] at hraw hc hview'
  have hcount : if r.text.getD "" = q.query then nextCounter r.counter = .ok counter
      else counter = 0 := by
    split
    · rename_i hsame
      simpa [hnew, hsame] using hc
    · rename_i hother
      simpa [hnew, hother, eq_comm] using hc
  rw [hview']
  split
  · exact .changed hraw he hdes ht hcount
  · rename_i hu
    rw [Bool.not_eq_true, Bool.or_eq_false_iff, Bool.not_eq_false', Bool.not_eq_false',
      List.isEmpty_iff, List.isEmpty_iff] at hu
    exact .unchanged hraw he hdes ht hcount hu.1 hu.2

/-- A successful differential call acts on the record of its query as `Call` says. -/
theorem call_of_run
    (h : (addNewResults json q rows epoch dr true).run db = (.ok (counter, dr'), db')) :
    Call json q rows epoch dr (view db q.name) counter dr' (view db' q.name) := by
  rw [addNewResults, Prog.run_bind] at h
  cases hc : (classify q epoch true).run db with
  | mk result db₁ =>
      rw [hc] at h
      cases result with
      | error e => simp at h
      | ok flags =>
          obtain ⟨fresh, new⟩ := flags
          cases classified_of_run hc with
          | unknownName hr =>
              simp only [run_update_fresh, Prod.mk.injEq, Except.ok.injEq] at h
              obtain ⟨⟨rfl, rfl⟩, rfl⟩ := h
              simpa using Call.firstRun hr
          | otherEpoch hr he hne =>
              simp only [run_update_fresh, Prod.mk.injEq, Except.ok.injEq] at h
              obtain ⟨⟨rfl, rfl⟩, rfl⟩ := h
              simpa using Call.newEpoch hr he hne
          | otherText hr he ht =>
              exact call_of_update (view_setText db q.name q.query) he rfl (by simp [ht]) h
          | same hr he ht =>
              exact call_of_update rfl he ht (by simp [ht]) h

end Osquery.DifferentialQueries
