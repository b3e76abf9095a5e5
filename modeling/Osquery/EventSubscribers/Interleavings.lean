import Osquery.EventSubscribers.Publisher
import Osquery.EventSubscribers.TimeRange

/-!
# Interleavings of a publisher and a query thread

From any reachable state and for every interleaving of both threads, what the
publisher recorded in a bin that does not expire can be found through the index,
if the query thread never rewrites an index to which the publisher has added a
bin since the query thread read it. A rewrite that comes too late loses the bin.
-/

namespace Osquery.EventSubscribers

open Foundation.AtomicProgram Foundation.JsonText Foundation.Numeral Foundation.Separated
open Foundation.Grouping Foundation.Interleaving Core.BackingStore Core.Conversions Core.Rows

variable {b : ℕ} {p : Process} {sub : Subscriber} {s : State} {log : EventLog}

/-! ### All batches of the publisher -/

theorem mem_newEntries {status : Except Failure Unit} {time : EventTime} {eids : List ℕ}
    {r : Record} (hr : r ∈ ifAdded status (recordsAt time eids)) (hb : r.bin = b) :
    r.text ∈ ifAdded status (newEntries b time eids) := by
  cases status with
  | error e => exact absurd hr List.not_mem_nil
  | ok _ =>
      have hbin : time.toNat / 60 = b := (recordsAt_bin r hr).symm.trans hb
      change r.text ∈ newEntries b time eids
      rw [newEntries, if_pos hbin]
      exact List.mem_map_of_mem hr

/-- The entries of the bin that the publisher has recorded. -/
def Recorded (ns : String) (b : ℕ) (entries : List String) (records : List Record) (w : Shared) :
    Prop :=
  ∃ eid entries', Aware ns b .publisher (Progress ns b eid entries') [toText b] w ∧
    entries ⊆ entries' ∧ ∀ r ∈ records, r.bin = b → r.text ∈ entries'

theorem stable_recorded (ns : String) (entries : List String) (records : List Record) :
    (discipline ns b .publisher).Stable (Recorded ns b entries records) := by
  rintro w w' hr ⟨eid, entries', hw, hsub, hrecords⟩
  exact ⟨eid, entries', (framed_progress _ _).stable_aware _ w w' hr hw, hsub, hrecords⟩

theorem safe_publish (p : Process) (hbin : ∃ r : Record, r.bin = b) (batches : List BatchCall)
    {eid : ℕ} {entries : List String} {w : Shared}
    (hw : Aware sub.dbNamespace b .publisher (Progress sub.dbNamespace b eid entries) [toText b] w) :
    (discipline sub.dbNamespace b .publisher).Safe
      (fun statuses => Recorded sub.dbNamespace b entries (recorded eid batches statuses))
      (publish p sub batches) w := by
  induction batches generalizing w eid entries with
  | nil =>
      refine Discipline.safe_pure (stable_recorded _ _ _) ⟨eid, entries, hw, fun _ h => h, ?_⟩
      intro r hr
      exact absurd hr List.not_mem_nil
  | cons c rest ih =>
      rw [publish]
      refine (safe_addBatch hbin p c hw).bind fun status w hw => ?_
      refine (ih hw).bind ?_
      rintro statuses w ⟨eid', entries', hw, hsub, hrecords⟩
      refine Discipline.safe_pure (stable_recorded _ _ _) ⟨eid', entries', hw, ?_, ?_⟩
      · exact fun entry hentry => hsub (List.mem_append_left _ hentry)
      · intro r hr hb
        rcases List.mem_append.mp hr with hr | hr
        · exact hsub (List.mem_append_right _ (mem_newEntries hr hb))
        · exact hrecords r hr hb

/-! ### Reachable states -/

theorem Stored.sound (h : Stored sub s log) (b : ℕ) : Sound sub.dbNamespace b s := by
  refine ⟨fun htext => ?_, h.wholeMinute⟩
  rw [h.represents.records, Ne, join_records_eq_empty] at htext
  rw [h.represents.indexedBins_eq]
  exact List.mem_map_of_mem ((group_ne_nil_iff Record.bin).mp htext)

/-- A batch takes one id for every row. -/
theorem lastEid_addBatch (p : Process) (h : Stored sub s log) (hready : Ready sub.dbNamespace s)
    (rows : List Row) (custom now : EventTime) :
    ((addBatch p sub rows custom now).run s).2.members.lastEid =
      s.members.lastEid + rows.length := by
  obtain ⟨db₁, hrun, hagree⟩ := run_prepareRows_ready p (eventTime custom now) rows hready
  have h₁ : Represents sub.dbNamespace db₁ log :=
    h.represents.congr hagree (eidKey_not_index _) fun _ => eidKey_not_record _ _
  have hchecked := checked_checkpoint (s := ⟨db₁, { s.members with
    lastEid := s.members.lastEid + rows.length }⟩) p h₁ h.wholeMinute
  have hlast := hchecked.lastEid_eq
  obtain ⟨-, keepBin, -, -, hrep, -⟩ := hchecked
  have hstart : (addBatch p sub rows custom now).run s = _ := Prog.run_bind _ _ s
  rw [show (if custom ≠ 0 then custom else now) = eventTime custom now from rfl, hrun] at hstart
  dsimp only at hstart
  rw [hstart]
  split
  · rfl
  · rename_i hne
    rw [Prog.run_bind]
    split
    · exact hlast
    · rw [run_storeBatch _ (by simpa using hne) hrep]
      exact hlast

theorem ready_get (p : Process) (h : Stored sub s log) (hready : Ready sub.dbNamespace s)
    (start stop now : EventTime) :
    Ready sub.dbNamespace ((get p sub start stop now).run s).2 := by
  obtain ⟨db₁, hexp, hrun⟩ := run_get p h.represents h.wholeMinute start stop now
  rw [hrun]
  refine hready.imp id fun heid => ?_
  refine ((agreesExcept_afterSave p _ db₁).valueAt_eq fun hk => hk.not_eid _ rfl).trans ?_
  exact (hexp.agreesExcept.valueAt_eq (eidKey_not_event _ _)).trans heid

/-- The counter was read before, or nothing is stored for it. -/
theorem ready_exec (p : Process) (h : Stored sub s log) (hready : Ready sub.dbNamespace s)
    (a : Action) : Ready sub.dbNamespace (a.exec p sub s) := by
  cases a with
  | addBatch rows custom now =>
      cases rows with
      | nil => exact hready
      | cons row rest =>
          left
          rw [Action.exec, lastEid_addBatch p h hready]
          exact Nat.succ_ne_zero _
  | get start stop now => exact ready_get p h hready start stop now
  | genTable constraints now now' =>
      obtain ⟨start, stop, m, hrun, hm⟩ := run_genTable p sub constraints now now' s
      rw [Action.exec, hrun]
      rcases hm with rfl | ⟨-, rfl⟩
      · exact ready_get p h hready start stop now'
      · exact ready_get p (h.beginScan s.db now) hready start stop now'
  | expireCheck =>
      have hchecked := checked_expireCheck p h.represents h.wholeMinute
      refine hready.imp (fun hlast => ?_) fun heid => ?_
      · exact hchecked.lastEid_eq ▸ hlast
      · exact (hchecked.agrees.valueAt_eq (eidKey_not_event _ _)).trans heid
  | recordQueryStart name =>
      exact hready.imp id fun heid => (valueAt_setExecuting _ _ _).trans heid
  | configure minExpiration queryCount queries => exact hready

theorem ready_execAll (p : Process) (actions : List Action) (h : Stored sub s log)
    (hready : Ready sub.dbNamespace s) : Ready sub.dbNamespace (execAll p sub actions s) := by
  induction actions generalizing s log with
  | nil => exact hready
  | cons a rest ih =>
      obtain ⟨log₁, h₁⟩ := stored_exec p h a
      exact ih h₁ (ready_exec p h hready a)

/-! ### Every interleaving -/

section Interleavings

variable (p : Process) (sub : Subscriber) (batches : List BatchCall) (scans : List ScanCall)

/-- Both threads after a schedule. -/
def interleaved (schedule : List Thread) (s : State) : Config Access Shared Answer :=
  interleave (effect sub.dbNamespace) schedule (begin p sub batches scans s)

/-- The query thread rewrites no index to which the publisher has added a bin
since the query thread read it. -/
def NoLateRewrite (schedule : List Thread) (s : State) : Prop :=
  Permitted (effect sub.dbNamespace) (UpToDate sub.dbNamespace) schedule (begin p sub batches scans s)

instance (schedule : List Thread) (s : State) :
    Decidable (NoLateRewrite p sub batches scans schedule s) :=
  inferInstanceAs (Decidable (Permitted _ _ _ _))

/-- A bin has not expired at any time of the run. -/
def NeverExpired (schedule : List Thread) (s : State) (b : ℕ) : Prop :=
  ∀ w ∈ visited (effect sub.dbNamespace) schedule (begin p sub batches scans s),
    stale w.state.members b = false

instance (schedule : List Thread) (s : State) (b : ℕ) :
    Decidable (NeverExpired p sub batches scans schedule s b) :=
  inferInstanceAs (Decidable (∀ w ∈ _, _))

end Interleavings

/-- The bin of an event is in the index, and its entry in the records of the bin. -/
structure Reachable (ns : String) (db : Database) (r : Record) : Prop where
  indexed : toText r.bin ∈ indexedBins ns db
  entry : r.text ∈ recordEntries ns db (toText r.bin)

/-- What the threads have established when they return. -/
def Established (ns : String) (b eid : ℕ) (batches : List BatchCall) :
    (t : Thread) → Answer t → Shared → Prop
  | .publisher, statuses => Recorded ns b [] (recorded eid batches statuses)
  | .query, _ => fun w => Sound ns b w.state

/-- Both threads are safe from a reachable state on. -/
theorem allSafe_begin (h : Stored sub s log) (hready : Ready sub.dbNamespace s)
    (hbin : ∃ r : Record, r.bin = b) (batches : List BatchCall) (scans : List ScanCall) :
    AllSafe (discipline sub.dbNamespace b)
      (Established sub.dbNamespace b s.members.lastEid batches) (begin p sub batches scans s) := by
  intro t
  cases t with
  | publisher =>
      refine safe_publish p hbin batches (aware_of_sound (h.sound b) ⟨⟨rfl, ?_⟩, hready⟩)
      exact fun entry hentry => absurd hentry List.not_mem_nil
  | query => exact safe_scanAll p hbin scans (h.sound b)

/-- From every reachable state and in every interleaving without a late rewrite
of the index, the events that the publisher recorded in bins that do not expire
are reachable when it has finished. -/
theorem interleaved_reachable (p : Process) (sub : Subscriber) (actions : List Action)
    (batches : List BatchCall) (scans : List ScanCall) (schedule : List Thread)
    (statuses : List (Except Failure Unit))
    (hrewrite : NoLateRewrite p sub batches scans schedule (execAll p sub actions initial))
    (hdone : returned ((interleaved p sub batches scans schedule
      (execAll p sub actions initial)).pool .publisher) = some statuses) :
    ∀ r ∈ recorded (execAll p sub actions initial).members.lastEid batches statuses,
      NeverExpired p sub batches scans schedule (execAll p sub actions initial) r.bin →
        Reachable sub.dbNamespace (interleaved p sub batches scans schedule
          (execAll p sub actions initial)).state.state.db r := by
  intro r hr hlive
  obtain ⟨log, hstored⟩ := stored_execAll p actions (stored_initial sub)
  have hready := ready_execAll p actions (stored_initial sub) (Or.inr (by
    rw [initial, valueAt, lookup_empty]
    rfl))
  have hbegin := allSafe_begin (p := p) hstored hready ⟨r, rfl⟩ batches scans
  have hpermitted := Permitted.and _ hrewrite hlive
  have hend := hbegin.interleave (discipline_compatible _ _) hpermitted
  obtain ⟨eid, entries, haware, -, hrecords⟩ := hend.of_returned hdone
  have hentry := haware.frame.entries _ (hrecords r hr rfl)
  refine ⟨haware.sound.listed ?_, hentry⟩
  intro htext
  rw [recordEntries, if_pos htext] at hentry
  exact absurd hentry List.not_mem_nil

/-! ### A late rewrite -/

/-- A subscriber whose events expire. -/
def expiringSubscriber : Subscriber := ⟨"type", "name", 100, 1000⟩

/-- An old event is added, and a scan moves the expire time past it. -/
def expiringActions : List Action := [.addBatch [sampleRow "a"] 60 60, .get 0 0 1000]

/-- The publisher adds one new event. -/
def newBatches : List BatchCall := [⟨[sampleRow "b"], 0, 1000⟩]

/-- The query thread scans once. -/
def oneScan : List ScanCall := [⟨0, 0, 1000⟩]

/-- The publisher commits after the query thread has rewritten the index. -/
def earlyRewrite : List Thread :=
  .query :: List.replicate 8 .publisher ++ List.replicate 9 .query ++ .publisher ::
    List.replicate 5 .query

/-- The publisher commits between the query thread's reading and rewriting of
the index. -/
def lateRewrite : List Thread :=
  .query :: List.replicate 9 .publisher ++ List.replicate 14 .query

theorem expiring_recorded : (⟨2, 1000⟩ : Record) ∈ recorded
    (execAll sampleProcess expiringSubscriber expiringActions initial).members.lastEid
    newBatches [.ok ()] := by
  have hlast : (execAll sampleProcess expiringSubscriber expiringActions
      initial).members.lastEid = 1 := by
    decide +kernel
  rw [hlast]
  decide

/-- No rewrite of the early schedule is late, the publisher returns, and the bin of
the new event does not expire. -/
theorem earlyRewrite_run :
    NoLateRewrite sampleProcess expiringSubscriber newBatches oneScan earlyRewrite
      (execAll sampleProcess expiringSubscriber expiringActions initial) ∧
    returned ((interleaved sampleProcess expiringSubscriber newBatches oneScan earlyRewrite
      (execAll sampleProcess expiringSubscriber expiringActions initial)).pool .publisher) =
        some [.ok ()] ∧
    NeverExpired sampleProcess expiringSubscriber newBatches oneScan earlyRewrite
      (execAll sampleProcess expiringSubscriber expiringActions initial)
      (Record.mk 2 1000).bin := by
  decide +kernel

/-- Both threads return from the late schedule, the bin of the new event does not
expire, and the index has lost it. -/
theorem lateRewrite_run :
    returned ((interleaved sampleProcess expiringSubscriber newBatches oneScan lateRewrite
      (execAll sampleProcess expiringSubscriber expiringActions initial)).pool .publisher) =
        some [.ok ()] ∧
    (returned ((interleaved sampleProcess expiringSubscriber newBatches oneScan lateRewrite
      (execAll sampleProcess expiringSubscriber expiringActions initial)).pool .query)).isSome =
        true ∧
    NeverExpired sampleProcess expiringSubscriber newBatches oneScan lateRewrite
      (execAll sampleProcess expiringSubscriber expiringActions initial)
      (Record.mk 2 1000).bin ∧
    toText (Record.mk 2 1000).bin ∉ indexedBins expiringSubscriber.dbNamespace
      (interleaved sampleProcess expiringSubscriber newBatches oneScan lateRewrite
        (execAll sampleProcess expiringSubscriber expiringActions initial)).state.state.db := by
  decide +kernel

/-- The new event is reachable although both threads work on the index. -/
theorem interleaved_reachable_early :
    Reachable expiringSubscriber.dbNamespace (interleaved sampleProcess expiringSubscriber
      newBatches oneScan earlyRewrite
      (execAll sampleProcess expiringSubscriber expiringActions initial)).state.state.db
      ⟨2, 1000⟩ := by
  obtain ⟨hrewrite, hdone, hlive⟩ := earlyRewrite_run
  exact interleaved_reachable sampleProcess expiringSubscriber expiringActions newBatches oneScan
    earlyRewrite [.ok ()] hrewrite hdone ⟨2, 1000⟩ expiring_recorded hlive

/-- A late rewrite loses the bin of the new event. -/
theorem interleaved_unreachable :
    ¬∀ (p : Process) (sub : Subscriber) (actions : List Action) (batches : List BatchCall)
      (scans : List ScanCall) (schedule : List Thread) (statuses : List (Except Failure Unit)),
      returned ((interleaved p sub batches scans schedule
        (execAll p sub actions initial)).pool .publisher) = some statuses →
      (returned ((interleaved p sub batches scans schedule
        (execAll p sub actions initial)).pool .query)).isSome = true →
      ∀ r ∈ recorded (execAll p sub actions initial).members.lastEid batches statuses,
        NeverExpired p sub batches scans schedule (execAll p sub actions initial) r.bin →
          Reachable sub.dbNamespace (interleaved p sub batches scans schedule
            (execAll p sub actions initial)).state.state.db r := by
  intro h
  obtain ⟨hdone, hscanned, hlive, hlost⟩ := lateRewrite_run
  have hreach := h sampleProcess expiringSubscriber expiringActions newBatches oneScan lateRewrite
    [.ok ()] hdone hscanned ⟨2, 1000⟩ expiring_recorded hlive
  exact hlost hreach.indexed

end Osquery.EventSubscribers
