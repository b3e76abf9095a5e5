import Osquery.DifferentialQueries.Record
import Mathlib.Data.List.Chain

/-!
# Replaying differentials

A run of one query is a sequence of successful differential calls, between
which anything may happen to the database that leaves the record of the query
alone. After every call the stored results are the rows of that call, and a
call that continues an epoch returns the exact difference to the rows stored
before it. A consumer that replays the differentials therefore never diverges
from the store.
-/

namespace Osquery.DifferentialQueries

open Foundation.AtomicProgram Foundation.JsonText Foundation.Numeral
open Core.BackingStore Core.Rows

/-- One successful call: its arguments, what it returned and the database it left. -/
structure CallEntry where
  query : String
  rows : QueryData
  epoch : UInt64
  counter : UInt64
  dr : DiffResults
  after : Database

/-- The successful differential calls made for one query name, with writes to
other keys in between. -/
inductive QueryRun (json : JsonLibrary) (name : String) (db : Database) :
    List CallEntry → Database → Prop
  | start : QueryRun json name db [] db
  | foreign {es : List CallEntry} {db₁ db₂ : Database} (run : QueryRun json name db es db₁)
      (h : view db₂ name = view db₁ name) : QueryRun json name db es db₂
  | call {es : List CallEntry} {db₁ db₂ : Database} {query : String} {rows : QueryData}
      {epoch counter : UInt64} {dr dr' : DiffResults} (run : QueryRun json name db es db₁)
      (h : (addNewResults json ⟨name, query⟩ rows epoch dr true).run db₁ =
        (.ok (counter, dr'), db₂)) :
      QueryRun json name db (es ++ [⟨query, rows, epoch, counter, dr', db₂⟩]) db₂

/-- The results stored under a query name, as a multiset. -/
def storedRows (json : JsonLibrary) (raw : Option String) : Option (Multiset Row) :=
  raw.bind fun raw => (deserializeQueryDataJSON json raw).toOption.map fun qd => (qd : Multiset Row)

/-- What the record of a query holds after a call. -/
structure Settled (json : JsonLibrary) (e : CallEntry) (r : QueryRecord) : Prop where
  results : storedRows json r.results = some (e.rows : Multiset Row)
  epoch : storedNumber r.epoch = .ok e.epoch
  counter : r.counter = some (toText e.counter.toNat)

/-- What a call returns when it continues the epoch of the stored results. -/
structure Replays (stored : Multiset Row) (e : CallEntry) : Prop where
  replay : stored - (e.dr.removed : Multiset Row) + e.dr.added = (e.rows : Multiset Row)
  removed_le : (e.dr.removed : Multiset Row) ≤ stored
  disjoint : Disjoint (e.dr.added : Multiset Row) e.dr.removed

variable {json : JsonLibrary} {name : String} {db db₁ db₂ : Database} {q : Query}
  {rows : QueryData} {epoch counter : UInt64} {dr dr' : DiffResults} {r r' : QueryRecord}
  {e : CallEntry} {es : List CallEntry}

@[simp] theorem storedNumber_toText (n : UInt64) :
    storedNumber (some (toText n.toNat)) = .ok n := by
  simp [storedNumber, parseStored]

theorem storedRows_serialize (h : ∀ r ∈ rows, Storable r) :
    storedRows json (some (serializeQueryDataJSON json rows)) = some (rows : Multiset Row) := by
  obtain ⟨out, hout, heq⟩ := deserializeQueryDataJSON_serialize json rows h
  simp [storedRows, hout, Except.toOption, heq]

theorem storedRows_of_deserialize {raw : String} {qd : QueryDataSet}
    (h : deserializeQueryDataJSON json raw = .ok qd) :
    storedRows json (some raw) = some (qd : Multiset Row) := by
  simp [storedRows, h, Except.toOption]

/-- A call leaves its rows, its epoch and its counter in the record, also when
the differential is empty and the results are not rewritten. -/
theorem settled_of_call (hs : ∀ r ∈ rows, Storable r)
    (h : Call json q rows epoch dr r counter dr' r') (query : String) (after : Database) :
    Settled json ⟨query, rows, epoch, counter, dr', after⟩ r' := by
  cases h with
  | firstRun hr => exact ⟨storedRows_serialize hs, storedNumber_toText epoch, rfl⟩
  | newEpoch hr he hne => exact ⟨storedRows_serialize hs, storedNumber_toText epoch, rfl⟩
  | unchanged hr he hd ht hc ha hm =>
      refine ⟨?_, he, rfl⟩
      change storedRows json r.results = _
      rw [hr, storedRows_of_deserialize hd, eq_of_diff_empty ha hm]
  | changed hr he hd ht hc => exact ⟨storedRows_serialize hs, storedNumber_toText epoch, rfl⟩

/-- A call whose epoch is the stored one replays the stored results. -/
theorem replays_of_call {stored : Multiset Row} (hstored : storedRows json r.results = some stored)
    (hepoch : storedNumber r.epoch = .ok epoch) (h : Call json q rows epoch dr r counter dr' r')
    (query : String) (after : Database) :
    Replays stored ⟨query, rows, epoch, counter, dr', after⟩ := by
  have hdiff : ∀ {raw : String} {previous_qd : QueryDataSet}, r.results = some raw →
      deserializeQueryDataJSON json raw = .ok previous_qd →
      Replays stored ⟨query, rows, epoch, counter, diff previous_qd rows, after⟩ := by
    intro raw previous_qd hr hd
    rw [hr, storedRows_of_deserialize hd] at hstored
    obtain rfl := Option.some.inj hstored
    exact ⟨diff_replay _ _, diff_removed_le _ _, diff_disjoint _ _⟩
  cases h with
  | firstRun hr => simp [hr, storedRows] at hstored
  | newEpoch hr he hne =>
      rw [hepoch] at he
      exact absurd (Except.ok.inj he).symm hne
  | unchanged hr he hd ht hc ha hm => exact hdiff hr hd
  | changed hr he hd ht hc => exact hdiff hr hd

/-- Along a run the record always is what the last call left. -/
theorem settled_of_run (run : QueryRun json name db es db₁)
    (hs : ∀ e ∈ es, ∀ r ∈ e.rows, Storable r) (he : e ∈ es.getLast?) :
    Settled json e (view db₁ name) := by
  induction run with
  | start => simp at he
  | foreign run h ih =>
      rw [h]
      exact ih hs he
  | call run h ih =>
      have hlast := hs _ (List.mem_append_right _ (List.mem_singleton.mpr rfl))
      simp only [List.getLast?_concat, Option.mem_def, Option.some.injEq] at he
      subst he
      exact settled_of_call hlast (call_of_run h) _ _

theorem addNewResults_replay_law (run : QueryRun json name db es db₁)
    (hs : ∀ e ∈ es, ∀ r ∈ e.rows, Storable r) :
    (∀ e ∈ es, storedRows json (lookup e.after kQueries name) = some (e.rows : Multiset Row)) ∧
      es.IsChain fun e e' => e'.epoch = e.epoch →
        ∃ stored, storedRows json (lookup e.after kQueries name) = some stored ∧
          Replays stored e' := by
  induction run with
  | start => exact ⟨by simp, List.IsChain.nil⟩
  | foreign run h ih => exact ih hs
  | @call es db₁ db₂ query rows epoch counter dr dr' run h ih =>
      have hs' : ∀ e ∈ es, ∀ r ∈ e.rows, Storable r := fun e he => hs e (by simp [he])
      obtain ⟨hstored, hchain⟩ := ih hs'
      have hlast := hs _ (List.mem_append_right _ (List.mem_singleton.mpr rfl))
      have hcall := call_of_run h
      have hsettled := settled_of_call hlast hcall query db₂
      constructor
      · intro e he
        rw [List.mem_append, List.mem_singleton] at he
        rcases he with he | rfl
        · exact hstored e he
        · exact hsettled.results
      · refine List.isChain_append.mpr ⟨hchain, List.isChain_singleton _, ?_⟩
        intro e he e' he' hepoch
        obtain rfl : e' = _ := (Option.some.inj he').symm
        have hprev := settled_of_run run hs' he
        have hmem : e ∈ es := List.mem_of_mem_getLast? he
        refine ⟨_, hstored e hmem, ?_⟩
        refine replays_of_call hprev.results ?_ hcall query db₂
        rw [hprev.epoch, ← hepoch]

/-- One call of a sample query in a fixed epoch. -/
def sampleCall (rows : QueryData) (db : Database) :
    Except Failure (UInt64 × DiffResults) × Database :=
  (addNewResults reference ⟨"q", "select 1"⟩ rows 0 {} true).run db

/-- Two calls of one epoch with a duplicate row that loses one copy. -/
theorem addNewResults_replay_law_two_calls :
    ∃ es db, QueryRun reference "q" ∅ es db ∧ es.length = 2 ∧
      (es.IsChain fun e e' => e'.epoch = e.epoch →
        ∃ stored, storedRows reference (lookup e.after kQueries "q") = some stored ∧
          Replays stored e') := by
  let a : Row := (∅ : Row).insert "a" "1"
  have h₁ : (sampleCall [a, a] ∅).1 = .ok (0, { added := [a, a] }) := by decide +kernel
  have h₂ : (sampleCall [a] (sampleCall [a, a] ∅).2).1 = .ok (1, { removed := [a] }) := by
    decide +kernel
  have run := (QueryRun.start.call (Prod.ext h₁ rfl)).call (Prod.ext h₂ rfl)
  refine ⟨_, _, run, rfl, (addNewResults_replay_law run ?_).2⟩
  have ha : Storable a := storable_insert storable_empty (by decide) (by decide) (by decide)
  intro e he r hr
  simp only [List.nil_append, List.cons_append, List.mem_cons, List.not_mem_nil, or_false] at he
  rcases he with rfl | rfl <;> simp_all

end Osquery.DifferentialQueries

/-!
## The counter of a query

The counter restarts on the first run, on a new epoch and on a new text, and
otherwise counts the runs. The text is saved on the first run and on a new
text, but not on a new epoch: the branch for a new epoch comes first and skips
the comparison. A call that changes both leaves the old text behind, and the
next call takes an unchanged text for a new one.
-/

namespace Osquery.DifferentialQueries

open Foundation.AtomicProgram Foundation.JsonText Foundation.Numeral
open Core.BackingStore Core.Rows

/-- The counter of a call after another one. -/
def counterAfter (e e' : CallEntry) : UInt64 :=
  if e'.epoch ≠ e.epoch ∨ e'.query ≠ e.query then 0 else e.counter + 1

/-- The counters of a whole run. -/
def CounterLaw (es : List CallEntry) : Prop :=
  (∀ e ∈ es.head?, e.counter = 0) ∧ es.IsChain fun e e' => e'.counter = counterAfter e e'

/-- A call changes the epoch or the text, not both at once. -/
def OneChange (e e' : CallEntry) : Prop := e'.epoch = e.epoch ∨ e'.query = e.query

/-- The record holds the epoch, the counter and the text of a call. -/
structure Tracks (e : CallEntry) (r : QueryRecord) : Prop where
  results : r.results.isSome = true
  epoch : storedNumber r.epoch = .ok e.epoch
  counter : nextCounter r.counter = .ok (e.counter + 1)
  text : r.text.getD "" = e.query

variable {json : JsonLibrary} {name query : String} {db db₁ after : Database}
  {rows : QueryData} {epoch counter : UInt64} {dr dr' : DiffResults} {r r' : QueryRecord}
  {e : CallEntry} {es : List CallEntry}

@[simp] theorem nextCounter_toText (n : UInt64) :
    nextCounter (some (toText n.toNat)) = .ok (n + 1) := by
  simp [nextCounter, parseStored, Except.map]

/-- The first call of a name starts at zero and saves everything. -/
theorem tracks_of_first (after : Database) (hr : r.results = none)
    (h : Call json ⟨name, query⟩ rows epoch dr r counter dr' r') :
    counter = 0 ∧ Tracks ⟨query, rows, epoch, counter, dr', after⟩ r' := by
  cases h with
  | firstRun _ => exact ⟨rfl, rfl, storedNumber_toText epoch, nextCounter_toText 0, rfl⟩
  | newEpoch hsome _ _ => simp [hr] at hsome
  | unchanged hsome _ _ _ _ _ _ => simp [hr] at hsome
  | changed hsome _ _ _ _ => simp [hr] at hsome

/-- A later call that makes one change returns the counter of the law and
saves everything. -/
theorem tracks_of_next (ht : Tracks e r)
    (h : Call json ⟨name, query⟩ rows epoch dr r counter dr' r')
    (hone : OneChange e ⟨query, rows, epoch, counter, dr', after⟩) :
    counter = counterAfter e ⟨query, rows, epoch, counter, dr', after⟩ ∧
      Tracks ⟨query, rows, epoch, counter, dr', after⟩ r' := by
  have hsame : ∀ {c : UInt64}, storedNumber r.epoch = .ok epoch →
      (if r.text.getD "" = query then nextCounter r.counter = .ok c else c = 0) →
      c = counterAfter e ⟨query, rows, epoch, counter, dr', after⟩ := by
    intro c hepoch hc
    rw [ht.epoch] at hepoch
    rw [ht.text, ht.counter] at hc
    simp only [counterAfter, Except.ok.inj hepoch, ne_eq, not_true_eq_false, false_or, ite_not]
    by_cases hq : e.query = query
    · rw [if_pos hq] at hc
      rw [if_pos hq.symm, Except.ok.inj hc]
    · rw [if_neg hq] at hc
      rw [if_neg (Ne.symm hq), hc]
  cases h with
  | firstRun hr => exact absurd ht.results (by simp [hr])
  | newEpoch hsome he hne =>
      rw [ht.epoch] at he
      have hep : epoch ≠ e.epoch := by
        rw [Except.ok.inj he]
        exact hne.symm
      have hquery : query = e.query := hone.resolve_left hep
      refine ⟨?_, rfl, storedNumber_toText epoch, nextCounter_toText 0, ?_⟩
      · rw [counterAfter, if_pos (Or.inl hep)]
      · rw [hquery]
        exact ht.text
  | unchanged hr he hd htext hc ha hm =>
      exact ⟨hsame he hc, ht.results, he, nextCounter_toText counter, htext⟩
  | changed hr he hd htext hc =>
      exact ⟨hsame he hc, rfl, storedNumber_toText epoch, nextCounter_toText counter, htext⟩

private theorem counter_run (run : QueryRun json name db es db₁)
    (hnew : (view db name).results = none) (hone : es.IsChain OneChange) :
    CounterLaw es ∧ (es = [] → (view db₁ name).results = none) ∧
      ∀ e ∈ es.getLast?, Tracks e (view db₁ name) := by
  induction run with
  | start => exact ⟨⟨by simp, List.IsChain.nil⟩, fun _ => hnew, by simp⟩
  | foreign run h ih =>
      rw [h]
      exact ih hone
  | @call es db₁ db₂ query rows epoch counter dr dr' run h ih =>
      obtain ⟨⟨hhead, hchain⟩, hnone, htracks⟩ := ih hone.left_of_append
      have hcall := call_of_run h
      cases hlast : es.getLast? with
      | none =>
          obtain rfl := List.getLast?_eq_none_iff.mp hlast
          obtain ⟨hzero, ht⟩ := tracks_of_first db₂ (hnone rfl) hcall
          refine ⟨⟨?_, List.isChain_singleton _⟩, by simp, ?_⟩
          · intro e he
            obtain rfl := Option.some.inj he
            exact hzero
          · intro e he
            obtain rfl := Option.some.inj he
            exact ht
      | some last =>
          have hstep := (List.isChain_append.mp hone).2.2 last hlast _ rfl
          obtain ⟨hc, ht⟩ := tracks_of_next (htracks last hlast) hcall hstep
          have hne : es ≠ [] := by
            rintro rfl
            simp at hlast
          refine ⟨⟨?_, List.isChain_append.mpr ⟨hchain, List.isChain_singleton _, ?_⟩⟩, by simp, ?_⟩
          · intro e he
            rw [List.head?_append_of_ne_nil _ hne] at he
            exact hhead e he
          · intro e he e' he'
            obtain rfl := Option.some.inj he'
            obtain rfl : last = e := Option.some.inj (hlast.symm.trans he)
            exact hc
          · intro e he
            rw [List.getLast?_concat] at he
            obtain rfl := Option.some.inj he
            exact ht

/-- On a name that is not yet stored, a run in which no call changes the epoch
and the text at once has the counters of the law. -/
theorem addNewResults_counter_law (run : QueryRun json name db es db₁)
    (hnew : (view db name).results = none) (hone : es.IsChain OneChange) : CounterLaw es :=
  (counter_run run hnew hone).1

/-- One call of a sample query without rows. -/
def sampleStep (query : String) (epoch : UInt64) (db : Database) :
    Except Failure (UInt64 × DiffResults) × Database :=
  (addNewResults reference ⟨"q", query⟩ [] epoch {} true).run db

/-- Two calls in one epoch count up. -/
theorem addNewResults_counter_law_two_calls :
    ∃ es db, QueryRun reference "q" ∅ es db ∧ es.map CallEntry.counter = [0, 1] ∧
      CounterLaw es := by
  have h₁ : (sampleStep "a" 0 ∅).1 = .ok (0, {}) := by decide +kernel
  have h₂ : (sampleStep "a" 0 (sampleStep "a" 0 ∅).2).1 = .ok (1, {}) := by decide +kernel
  have run := (QueryRun.start.call (Prod.ext h₁ rfl)).call (Prod.ext h₂ rfl)
  refine ⟨_, _, run, rfl, addNewResults_counter_law run (by decide) ?_⟩
  exact List.isChain_pair.mpr (Or.inl rfl)

/-- Epoch and text change together in the second call; the third call repeats
both, and its counter is zero again. -/
theorem addNewResults_counter_restarts_twice :
    ¬∀ es db, QueryRun reference "q" ∅ es db → (∀ e ∈ es, e.query ≠ "") → CounterLaw es := by
  have h₁ : (sampleStep "a" 0 ∅).1 = .ok (0, {}) := by decide +kernel
  have h₂ : (sampleStep "b" 1 (sampleStep "a" 0 ∅).2).1 = .ok (0, {}) := by decide +kernel
  have h₃ : (sampleStep "b" 1 (sampleStep "b" 1 (sampleStep "a" 0 ∅).2).2).1 = .ok (0, {}) := by
    decide +kernel
  have run := ((QueryRun.start.call (Prod.ext h₁ rfl)).call (Prod.ext h₂ rfl)).call
    (Prod.ext h₃ rfl)
  intro hall
  have hlaw := (hall _ _ run (by decide)).2
  simp only [List.nil_append, List.cons_append, List.isChain_cons_cons] at hlaw
  exact absurd hlaw.2.1 (by decide)

end Osquery.DifferentialQueries
