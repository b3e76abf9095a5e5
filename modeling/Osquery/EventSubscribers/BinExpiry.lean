import Osquery.EventSubscribers.Delivery
import Osquery.EventSubscribers.EventIds
import Mathlib.Data.List.Pairwise

/-!
# Expiring one bin

The rows of a bin with several records are deleted as one range of keys, from
the key of its first record to that of its last. The range is exact when the
rows stored under the keys in between are those of the bin; a row that was
recorded in another bin in the meantime goes with them.
-/

namespace Osquery.EventSubscribers

open Foundation.AtomicProgram Foundation.JsonText Foundation.Numeral Foundation.Separated
open Foundation.Grouping Core.BackingStore Core.Conversions Core.Rows

variable {p : Process} {sub : Subscriber} {s : State} {log : EventLog}

/-! ### What expiring a bin is for -/

/-- The rows of the records are gone, every other row is as before, and the record
list of the bin is gone. -/
structure ExpiresBin (ns : String) (b : ℕ) (rs : List Record) (db db' : Database) : Prop where
  deleted : ∀ r ∈ rs, lookup db' kEvents (dataKey ns (toIndex r.eid)) = none
  others : ∀ key, IsData key → (∀ r ∈ rs, key ≠ dataKey ns (toIndex r.eid)) →
    lookup db' kEvents key = lookup db kEvents key
  recordList : lookup db' kEvents (recordKey ns (toText b)) = none

/-- The stored rows whose keys the expiry of the records reaches are the stored rows of
the records. -/
def ReachesOnly (ns : String) (e : EventTime) (db : Database) : List Record → Prop
  | [] => True
  | [r] => readTime r.time ≤ e ∨ lookup db kEvents (dataKey ns (toIndex r.eid)) = none
  | first :: second :: rest => ∀ key, lookup db kEvents key ≠ none →
      ((dataKey ns (toIndex first.eid) ≤ key ∧
          key ≤ dataKey ns (toIndex ((second :: rest).getLast (List.cons_ne_nil _ _)).eid)) ↔
        ∃ r ∈ first :: second :: rest, key = dataKey ns (toIndex r.eid))

/-- Removing keys is exact when the stored ones among them are those of the records. -/
theorem reachesOnly_iff {ns : String} {e : EventTime} {db : Database} {rs : List Record} :
    ReachesOnly ns e db rs ↔ ∀ key, lookup db kEvents key ≠ none →
      (Deleted ns e rs key ↔ ∃ r ∈ rs, key = dataKey ns (toIndex r.eid)) := by
  match rs with
  | [] => simp [ReachesOnly, Deleted]
  | [r] =>
      simp only [ReachesOnly, Deleted, List.mem_singleton, exists_eq_left]
      constructor
      · rintro (hle | hnone) key hkey
        · exact and_iff_right hle
        · refine ⟨fun h => h.2, ?_⟩
          rintro rfl
          exact absurd hnone hkey
      · intro h
        by_cases hnone : lookup db kEvents (dataKey ns (toIndex r.eid)) = none
        · exact Or.inr hnone
        · exact Or.inl ((h _ hnone).mpr rfl).1
  | first :: second :: rest => exact Iff.rfl

theorem isData_of_deleted {ns : String} {e : EventTime} {rs : List Record} {key : String}
    (h : Deleted ns e rs key) : IsData key := h.isPrefix

/-- What `expireRecords` leaves is exact when and only when the keys that it reaches are
those of the bin. -/
theorem expiresBin_iff {ns : String} {e : EventTime} {b : ℕ} {rs : List Record}
    {db db' : Database}
    (h : Removes (fun key => Deleted ns e rs key ∨ key = recordKey ns (toText b)) db db') :
    ExpiresBin ns b rs db db' ↔ ReachesOnly ns e db rs := by
  rw [reachesOnly_iff]
  constructor
  · intro hexp key hkey
    constructor
    · intro hdel
      by_contra hno
      push Not at hno
      rw [← hexp.others key (isData_of_deleted hdel) hno, h.gone key (Or.inl hdel)] at hkey
      exact hkey rfl
    · rintro ⟨r, hr, rfl⟩
      by_contra hno
      have hgone := hexp.deleted r hr
      rw [h.kept] at hgone
      · exact hkey hgone
      · rintro ⟨-, hdel | hrecord⟩
        · exact hno hdel
        · exact recordKey_not_data ns _ (hrecord ▸ dataKey_isPrefix ns _)
  · intro hreach
    refine ⟨?_, ?_, h.gone _ (Or.inr rfl)⟩
    · intro r hr
      by_cases hdel : Deleted ns e rs (dataKey ns (toIndex r.eid))
      · exact h.gone _ (Or.inl hdel)
      · have hnone : lookup db kEvents (dataKey ns (toIndex r.eid)) = none := by
          by_contra hsome
          exact hdel ((hreach _ hsome).mpr ⟨r, hr, rfl⟩)
        rw [h.kept, hnone]
        rintro ⟨-, hk | hk⟩
        · exact hdel hk
        · exact recordKey_not_data ns _ (hk ▸ dataKey_isPrefix ns _)
    · intro key hdata hno
      by_cases hnone : lookup db kEvents key = none
      · by_cases hdel : Deleted ns e rs key
        · rw [h.gone key (Or.inl hdel), hnone]
        · rw [h.kept]
          rintro ⟨-, hk | rfl⟩
          · exact hdel hk
          · exact recordKey_not_isData ns _ hdata
      · rw [h.kept]
        rintro ⟨-, hk | rfl⟩
        · obtain ⟨r, hr, hkey⟩ := (hreach key hnone).mp hk
          exact hno r hr hkey
        · exact recordKey_not_isData ns _ hdata

/-- In every store of events, once all queries have run, expiring a bin deletes exactly
that bin if and only if the stored rows that the deletion reaches are those of the bin. -/
theorem expireRecords_exact_iff (p : Process) (h : RecordsOf sub.dbNamespace s.db log)
    (hall : allExecuted s.members = true) (b : ℕ) :
    ExpiresBin sub.dbNamespace b (log.binRecords b) s.db
        ((expireRecords p sub "60" (toText b) true).run s).2.db ↔
      ReachesOnly sub.dbNamespace s.members.expireTime s.db (log.binRecords b) := by
  obtain ⟨db', hrun, hrem⟩ := run_expireRecords (p := p) (b := b) hall h
  rw [hrun]
  exact expiresBin_iff hrem

/-! ### A late event -/

/-- The second event is of the next minute, the third of the first minute again. -/
def lateActions : List Action :=
  [.addBatch [sampleRow "a"] 100 300, .addBatch [sampleRow "b"] 200 300,
    .addBatch [sampleRow "c"] 110 300]

def lateState : State := execAll sampleProcess sampleSubscriber lateActions initial

theorem lateState_allExecuted : allExecuted lateState.members = true := by
  decide +kernel

theorem expireRecords_exact_late :
    ∃ log, RecordsOf sampleSubscriber.dbNamespace lateState.db log ∧
      (ExpiresBin sampleSubscriber.dbNamespace 1 (log.binRecords 1) lateState.db
          ((expireRecords sampleProcess sampleSubscriber "60" (toText 1) true).run
            lateState).2.db ↔
        ReachesOnly sampleSubscriber.dbNamespace lateState.members.expireTime lateState.db
          (log.binRecords 1)) := by
  obtain ⟨log, h⟩ := stored_execAll sampleProcess lateActions (stored_initial sampleSubscriber)
  exact ⟨log, h.represents.records,
    expireRecords_exact_iff sampleProcess h.represents.records lateState_allExecuted 1⟩

/-- Expiring the first minute deletes the event of the second. -/
theorem late_not_expiresBin :
    ¬∀ (p : Process) (sub : Subscriber) (actions : List Action) (log : EventLog) (b : ℕ),
      RecordsOf sub.dbNamespace (execAll p sub actions initial).db log →
      allExecuted (execAll p sub actions initial).members = true →
      ExpiresBin sub.dbNamespace b (log.binRecords b) (execAll p sub actions initial).db
        ((expireRecords p sub "60" (toText b) true).run (execAll p sub actions initial)).2.db := by
  intro h
  obtain ⟨log, hlog⟩ := stored_execAll sampleProcess lateActions (stored_initial sampleSubscriber)
  have hentries : recordEntries sampleSubscriber.dbNamespace lateState.db (toText 1) =
      [(⟨1, 100⟩ : Record), ⟨3, 110⟩].map Record.text := by
    decide +kernel
  have hbin : log.binRecords 1 = [⟨1, 100⟩, ⟨3, 110⟩] :=
    List.map_injective_iff.mpr (fun _ _ => Record.text_inj)
      ((hlog.represents.recordEntries_eq 1).symm.trans hentries)
  have hexp := h sampleProcess sampleSubscriber lateActions log 1 hlog.represents.records
    lateState_allExecuted
  rw [hbin] at hexp
  have hsame := hexp.others (dataKey sampleSubscriber.dbNamespace (toIndex 2))
    (dataKey_isPrefix _ _) (by decide +kernel)
  have hbefore : (lookup lateState.db kEvents
      (dataKey sampleSubscriber.dbNamespace (toIndex 2))).isSome = true := by
    decide +kernel
  have hafter : (lookup ((expireRecords sampleProcess sampleSubscriber "60" (toText 1) true).run
      lateState).2.db kEvents (dataKey sampleSubscriber.dbNamespace (toIndex 2))).isSome =
        false := by
    decide +kernel
  change lookup _ _ _ = lookup lateState.db _ _ at hsame
  rw [← hsame] at hbefore
  exact Bool.false_ne_true (hafter.symm.trans hbefore)

end Osquery.EventSubscribers
