import Osquery.EventSubscribers.Timeline
import Osquery.Foundation.Feed

/-!
# Delivery of events to scheduled queries

A subscriber on a clock that does not go back is a feed, and its scheduled
queries are the readers: without expiry and eviction every run of a query
yields the events that were added since the previous run of this query, in the
order in which they were added. Every event is therefore yielded once to every
query, by its first run after the event was added.
-/

namespace Osquery.EventSubscribers

open Foundation.AtomicProgram Foundation.JsonText Foundation.Numeral Foundation.Separated
open Foundation.Grouping Foundation.Feed Core.BackingStore Core.Conversions Core.Rows

variable {p : Process} {sub : Subscriber} {s : State} {log : EventLog}

/-! ### Events -/

/-- An event: the row that was added, its time and its id. -/
structure Event where
  row : Row
  time : EventTime
  eid : ℕ

def Event.record (e : Event) : Record := ⟨e.eid, e.time⟩

/-- The row of an event with its time and its id. -/
def Event.stamped (e : Event) : Row :=
  (e.row.insert "time" (toText e.time.toNat)).insert "eid" (toIndex e.eid)

/-- The row that the store gives back for an event. -/
def Event.yielded (e : Event) : Row := jsonRow e.stamped

def Event.content (p : Process) (e : Event) : String := storedText p e.time e.row e.eid

theorem dropNewline_write (p : Process) (members : List (String × Json)) :
    dropNewline (p.json.write (.obj members)) = p.json.write (.obj members) := by
  rw [dropNewline, p.json.write_obj_last, if_neg (by decide)]

theorem rowOf_content (p : Process) (e : Event) : rowOf p (e.content p) = some e.yielded := by
  have hread := deserializeRowJSON_serializeRowJSON p.json e.stamped
  have hcontent : e.content p = serializeRowJSON p.json e.stamped := by
    simp only [Event.content, storedText, serializeRowJSON, toString_eq_write, dropNewline_write,
      Event.stamped]
  have hne : serializeRowJSON p.json e.stamped ≠ "" := by
    intro hempty
    have hlast := p.json.write_obj_last (serializeRow e.stamped [] [])
    rw [← toString_eq_write, ← serializeRowJSON, hempty] at hlast
    simp at hlast
  rw [rowOf, hcontent, if_neg hne, hread]
  rfl

/-! ### Histories -/

/-- A call that adds events, or a run of a scheduled query. -/
inductive Step
  | addBatch (row_list : List Row) (custom_event_time now : EventTime)
  | query (name : String) (now now' : EventTime)

/-- The events of a batch that is added after `n` other events. -/
def batchEvents (n : ℕ) (time : EventTime) (rows : List Row) : List Event :=
  (numbered n rows).map fun d => ⟨d.1, time, d.2⟩

/-- What a step does to the feed of events. -/
def Step.op (n : ℕ) : Step → Op String Event
  | .addBatch row_list custom_event_time now =>
      .publish (batchEvents n (eventTime custom_event_time now) row_list)
  | .query name _ _ => .read name

/-- The feed of a history; events are numbered in the order in which they are added. -/
def feed (steps : List Step) : List (Op String Event) :=
  steps.foldl (fun ops step => ops ++ [step.op (published ops).length]) []

theorem feed_concat (steps : List Step) (step : Step) :
    feed (steps ++ [step]) = feed steps ++ [step.op (published (feed steps)).length] := by
  simp [feed]

/-- No bin is old enough to be expired by a scan. -/
def ExpiresNothing (ns : String) (m : Members) (db : Database) : Prop :=
  ∀ bin ∈ indexedBins ns db, allExecuted m = true →
    ¬(timeFromRecord bin + 1) * 60 ≤ m.expireTime

instance (ns : String) (m : Members) (db : Database) : Decidable (ExpiresNothing ns m db) :=
  inferInstanceAs (Decidable (∀ bin ∈ indexedBins ns db, allExecuted m = true →
    ¬(timeFromRecord bin + 1) * 60 ≤ m.expireTime))

/-- Histories on a clock that does not go back: events are added at the time of
the clock, no checkpoint evicts and no scan expires anything. -/
inductive Timeline (p : Process) (sub : Subscriber) (start : State) :
    List Step → State → EventTime → Prop
  | nil {clock : EventTime} (hclock : 1 ≤ clock) (hlt : clock.toNat < 2 ^ 63) :
      Timeline p sub start [] start clock
  | addBatch {steps : List Step} {s : State} {clock : EventTime} (rows : List Row)
      (custom now : EventTime) (h : Timeline p sub start steps s clock) (hclock : clock ≤ now)
      (hlt : now.toNat < 2 ^ 63) (htime : eventTime custom now = now)
      (hroom : ¬Overflows sub (prepared p sub now rows s))
      (hcount : s.members.lastEid + rows.length < 2 ^ 63) :
      Timeline p sub start (steps ++ [.addBatch rows custom now])
        ((EventSubscribers.addBatch p sub rows custom now).run s).2 now
  | query {steps : List Step} {s : State} {clock : EventTime} (name : String)
      (now now' : EventTime) (h : Timeline p sub start steps s clock) (hname : name ≠ "") (hclock : clock ≤ now)
      (hclock' : now ≤ now') (hlt : now'.toNat < 2 ^ 63)
      (hkeep : ExpiresNothing sub.dbNamespace (scanMembers name now s) s.db) :
      Timeline p sub start (steps ++ [.query name now now'])
        ((scheduledScan p sub name now now').run s).2 now'

/-- A subscriber without events over an empty database. -/
structure Fresh (s : State) : Prop where
  db : s.db = ∅
  lastEid : s.members.lastEid = 0
  expireTime : s.members.expireTime = 0

/-! ### The store follows the feed -/

/-- All events of the feed are stored, and the position of every query is the
number of events before its last run. -/
structure Follows (p : Process) (sub : Subscriber) (ops : List (Op String Event)) (s : State)
    (log : EventLog) (clock : EventTime) : Prop where
  onClock : OnClock sub s log clock
  positive : 1 ≤ clock
  ready : Ready sub.dbNamespace s
  records : log.records = (published ops).map Event.record
  eids : (published ops).map Event.eid = List.range' 1 s.members.lastEid
  contents : ∀ e ∈ published ops,
    valueAt s.db (dataKey sub.dbNamespace (toIndex e.eid)) = e.content p
  position : ∀ q, q ≠ "" → (storedPosition s.db q).2.toNat = seen q ops

theorem storedPosition_empty (q : String) : storedPosition ∅ q = (0, 0) := by
  have hval : ∀ key, valueAt ∅ key = "" := by
    intro key
    rw [valueAt, lookup_empty]
    rfl
  have htime : timeFromRecord "" = 0 := by decide
  have heid : tryToUnsigned "" 0 = 0 := by decide
  rw [storedPosition, hval, hval, htime, heid]
  split <;> rfl

theorem Fresh.follows (h : Fresh s) {clock : EventTime} (hclock : 1 ≤ clock)
    (hlt : clock.toNat < 2 ^ 63) : Follows p sub [] s EventLog.empty clock := by
  have hdb : ∀ key, lookup s.db kEvents key = none := by
    intro key
    rw [h.db, lookup_empty]
  have hpos : ∀ q, storedPosition s.db q = (0, 0) := by
    intro q
    rw [h.db, storedPosition_empty]
  have hzero : (0 : EventTime) < clock := UInt64.lt_of_lt_of_le (by decide) hclock
  refine ⟨⟨⟨represents_empty hdb, ?_, ?_⟩, ⟨List.Pairwise.nil, ?_, hlt, ?_⟩, ?_, ?_⟩, hclock, ?_, rfl,
    ?_, ?_, ?_⟩
  · intro r hr
    exact absurd hr List.not_mem_nil
  · rw [WholeMinute, h.expireTime]
    rfl
  · intro r hr
    exact absurd hr List.not_mem_nil
  · intro r hr
    exact absurd hr List.not_mem_nil
  · intro q _ r hr
    exact absurd hr List.not_mem_nil
  · intro q _
    rw [hpos q]
    exact hzero
  · right
    rw [valueAt, hdb]
    rfl
  · rw [h.lastEid]
    rfl
  · intro e he
    exact absurd he List.not_mem_nil
  · intro q _
    rw [hpos q]
    rfl

theorem Follows.length_eq {ops : List (Op String Event)} {clock : EventTime}
    (h : Follows p sub ops s log clock) : (published ops).length = s.members.lastEid := by
  have hlen := congrArg List.length h.eids
  simpa using hlen

theorem batchEvents_eids (n : ℕ) (time : EventTime) (rows : List Row) :
    (batchEvents n time rows).map Event.eid = List.range' (n + 1) rows.length := by
  rw [batchEvents, List.map_map, ← numbered_eids]
  rfl

theorem batchEvents_records (n : ℕ) (time : EventTime) (rows : List Row) :
    (batchEvents n time rows).map Event.record =
      recordsAt time ((numbered n rows).map Prod.snd) := by
  rw [batchEvents, recordsAt, List.map_map, List.map_map]
  rfl

/-- The rows of a batch are found under their ids. -/
theorem valueAt_putBatch {data : List (String × String)} (hkeys : data.Pairwise fun a b => a.1 ≠ b.1)
    (db : Database) {d : String × String} (hd : d ∈ data) :
    valueAt (Ephemeral.putBatch db kEvents data) d.1 = d.2 := by
  induction data generalizing db with
  | nil => exact absurd hd List.not_mem_nil
  | cons q rest ih =>
      obtain ⟨hq, hrest⟩ := List.pairwise_cons.mp hkeys
      rcases List.mem_cons.mp hd with rfl | hd
      · rw [putBatch_cons, valueAt, lookup_putBatch_of_forall_ne _ _ _ _ _
          fun _ q hq' => (hq q hq').symm, lookup_setValue, if_pos ⟨rfl, rfl⟩]
        rfl
      · exact ih hrest (Ephemeral.setValue db kEvents q.1 q.2) hd

theorem dataKey_not_index (ns ns' eid : String) : ¬IsIndex ns (dataKey ns' eid) := by
  rintro (h | ⟨x, h⟩)
  · exact indexKey_not_data ns (h ▸ dataKey_isPrefix ns' eid)
  · exact recordKey_not_data ns _ (h ▸ dataKey_isPrefix ns' eid)

theorem dataKey_ne_eidKey (ns ns' eid : String) : dataKey ns eid ≠ eidKey ns' := by
  intro h
  have hl := congrArg String.toList h
  simp [dataKey, eidKey] at hl

theorem eidKey_not_event (ns ns' : String) : ¬(IsIndex ns (eidKey ns') ∨ IsData (eidKey ns')) := by
  rintro ((h | ⟨x, h⟩) | ⟨rest, h⟩)
  · have hl := congrArg String.toList h
    simp [eidKey, indexKey] at hl
  · have hl := congrArg String.toList h
    simp [eidKey, recordKey] at hl
  · simp [eidKey] at h

theorem dataKey_not_position (ns eid : String) : ¬IsPosition (dataKey ns eid) :=
  fun h => h.not_data (dataKey_isPrefix ns eid)

theorem batchData_distinct (p : Process) (ns : String) (time : EventTime) (n : ℕ)
    (rows : List Row) :
    (batchData p ns time (numbered n rows)).Pairwise fun a b => a.1 ≠ b.1 := by
  have hnodup : ((numbered n rows).map Prod.snd).Nodup := by
    rw [numbered_eids]
    exact List.nodup_range'
  rw [batchData, List.pairwise_map]
  refine (List.pairwise_map.mp hnodup).imp ?_
  intro a b hne hkey
  exact hne (toIndex_inj.mp (dataKey_inj.mp hkey))

section Add

variable {rows : List Row} {custom now : EventTime} {db₁ : Database}

theorem mem_numbered {n : ℕ} {e : ℕ} (h : e ∈ (numbered n rows).map Prod.snd) :
    n < e ∧ e ≤ n + rows.length := by
  rw [numbered_eids, List.mem_range'_1] at h
  omega

theorem numbered_pairwise (n : ℕ) (rows : List Row) :
    ((numbered n rows).map Prod.snd).Pairwise (· < ·) := by
  rw [numbered_eids]
  exact List.pairwise_lt_range'

/-- Storing a batch without eviction extends the log by its records. -/
theorem grown_storedBatch (h : Stored sub s log) (hne : rows ≠ [])
    (hagree : AgreesExcept (· = eidKey sub.dbNamespace) s.db db₁) (time : EventTime) :
    ∃ log', log'.records = log.records ++
        recordsAt time ((numbered s.members.lastEid rows).map Prod.snd) ∧
      Grown sub time log log' s
        ⟨storedBatch p sub.dbNamespace time (numbered s.members.lastEid rows) log db₁,
          { s.members with lastEid := s.members.lastEid + rows.length }⟩ := by
  have h₁ : Represents sub.dbNamespace db₁ log :=
    h.represents.congr hagree (eidKey_not_index _) fun _ => eidKey_not_record _ _
  have hfresh : ∀ a ∈ log.records, ∀ e ∈ (numbered s.members.lastEid rows).map Prod.snd,
      a.eid < e := fun a ha e he => (h.bounded a ha).trans_lt (mem_numbered he).1
  have hbatch : numbered s.members.lastEid rows ≠ [] := fun hnil =>
    hne (List.zipIdx_eq_nil_iff.mp hnil)
  refine ⟨_, rfl, ⟨represents_storedBatch h₁ time hbatch (numbered_pairwise _ _) hfresh, ?_,
    h.wholeMinute⟩, ⟨fun _ => true, (numbered s.members.lastEid rows).map Prod.snd, ?_,
      fun e he => (mem_numbered he).1⟩, Nat.le_add_right _ _, ⟨rfl, rfl⟩, ?_⟩
  · intro r hr
    rcases List.mem_append.mp hr with hr | hr
    · exact (h.bounded r hr).trans (Nat.le_add_right _ _)
    · obtain ⟨e, he, rfl⟩ := List.mem_map.mp hr
      exact (mem_numbered he).2
  · rw [EventLog.keep_eq_self fun _ _ => rfl]
    rfl
  · exact (hagree.mono fun _ hk => Or.inl hk).trans
      ((agreesExcept_storedBatch p _ _ _ _ _).mono fun _ hk => Or.inr hk)

/-- After a batch the rows of its events and of all earlier ones are stored. -/
theorem contents_storedBatch {events : List Event} {n : ℕ}
    (hold : ∀ e ∈ events, e.eid ≤ n ∧
      valueAt s.db (dataKey sub.dbNamespace (toIndex e.eid)) = e.content p)
    (hagree : AgreesExcept (· = eidKey sub.dbNamespace) s.db db₁) (time : EventTime) :
    ∀ e ∈ events ++ batchEvents n time rows,
      valueAt (storedBatch p sub.dbNamespace time (numbered n rows) log db₁)
        (dataKey sub.dbNamespace (toIndex e.eid)) = e.content p := by
  intro e he
  have hindex : ∀ d ∈ recordData sub.dbNamespace log time ((numbered n rows).map Prod.snd),
      IsIndex sub.dbNamespace d.1 := recordData_isIndex
  rw [storedBatch, (agreesExcept_putBatch _ _ _ hindex).valueAt_eq (dataKey_not_index _ _ _)]
  rcases List.mem_append.mp he with he | he
  · have hkeys : ∀ d ∈ batchData p sub.dbNamespace time (numbered n rows),
        d.1 ≠ dataKey sub.dbNamespace (toIndex e.eid) := by
      rintro d hd hkey
      obtain ⟨b, hb, rfl⟩ := List.mem_map.mp hd
      have heid : b.2 = e.eid := toIndex_inj.mp (dataKey_inj.mp hkey)
      have hlt := (mem_numbered (List.mem_map_of_mem hb)).1
      exact absurd (hold e he).1 (by omega)
    rw [(agreesExcept_putBatch (fun key => key ≠ dataKey sub.dbNamespace (toIndex e.eid)) _ _
      hkeys).valueAt_eq (not_not.mpr rfl), hagree.valueAt_eq (dataKey_ne_eidKey _ _ _)]
    exact (hold e he).2
  · obtain ⟨d, hd, rfl⟩ := List.mem_map.mp he
    exact valueAt_putBatch (batchData_distinct p _ time n rows) db₁
      (List.mem_map_of_mem (f := fun d : Row × ℕ =>
        (dataKey sub.dbNamespace (toIndex d.2), storedText p time d.1 d.2)) hd)

end Add

/-- A batch is published. -/
theorem Follows.addBatch {ops : List (Op String Event)} {clock now : EventTime} {rows : List Row}
    {custom : EventTime} (h : Follows p sub ops s log clock) (hclock : clock ≤ now)
    (hlt : now.toNat < 2 ^ 63) (htime : eventTime custom now = now)
    (hroom : ¬Overflows sub (prepared p sub now rows s))
    (hcount : s.members.lastEid + rows.length < 2 ^ 63) :
    ∃ log', Follows p sub (ops ++ [.publish (batchEvents (published ops).length now rows)])
      ((EventSubscribers.addBatch p sub rows custom now).run s).2 log' now := by
  by_cases hne : rows = []
  · subst hne
    have hpub : published (ops ++ [.publish (batchEvents (published ops).length now [])]) =
        published ops := by
      rw [published_concat]
      exact List.append_nil _
    have hclock' : OnClock sub s log now :=
      ⟨h.onClock.stored, h.onClock.inOrder.mono hclock hlt, h.onClock.separates,
        fun q hq => UInt64.lt_of_lt_of_le (h.onClock.behind q hq) hclock⟩
    rw [run_addBatch_nil]
    refine ⟨log, hclock', UInt64.le_trans h.positive hclock, h.ready, ?_, ?_, ?_, ?_⟩
    · rw [hpub, h.records]
    · rw [hpub, h.eids]
    · rw [hpub]
      exact h.contents
    · intro q hq
      rw [seen_concat_publish, h.position q hq]
  · obtain ⟨db₁, hagree, hrun⟩ := run_addBatch_ready (p := p) h.onClock.stored.represents h.ready
      hne custom now (by rw [htime]; exact hroom)
    obtain ⟨log', hrecords, hgrown⟩ := grown_storedBatch (p := p) h.onClock.stored hne hagree now
    have hpub : published (ops ++ [.publish (batchEvents (published ops).length now rows)]) =
        published ops ++ batchEvents s.members.lastEid now rows := by
      rw [published_concat, h.length_eq]
      rfl
    rw [htime] at hrun
    rw [hrun]
    refine ⟨log', hgrown.onClock h.onClock hclock hlt hcount, UInt64.le_trans h.positive hclock,
      ?_, ?_, ?_, ?_, ?_⟩
    · left
      have hlen := List.length_pos_of_ne_nil hne
      dsimp only
      omega
    · rw [hpub, hrecords, List.map_append, h.records, batchEvents_records]
    · rw [hpub, List.map_append, h.eids, batchEvents_eids, Nat.add_comm s.members.lastEid 1,
        List.range'_append_1]
    · rw [hpub]
      refine contents_storedBatch (fun e he => ⟨?_, h.contents e he⟩) hagree now
      have hmem : e.eid ∈ (published ops).map Event.eid := List.mem_map_of_mem he
      rw [h.eids, List.mem_range'_1] at hmem
      omega
    · intro q hq
      have hpos : storedPosition (storedBatch p sub.dbNamespace now
          (numbered s.members.lastEid rows) log db₁) q = storedPosition s.db q := by
        refine storedPosition_congr (fun key hkey => hgrown.agrees.valueAt_eq ?_) q
        rintro (hk | hk | hk)
        · exact hkey.not_eid _ hk
        · exact hkey.not_index hk
        · exact hkey.not_data hk
      rw [seen_concat_publish, ← h.position q hq, ← hpos]

/-- Elements numbered in order: those above a number are what follows it. -/
theorem filter_eq_drop {α : Type} {f : α → ℕ} {l : List α} {a n : ℕ}
    (h : l.map f = List.range' (a + 1) n) (k : ℕ) :
    l.filter (fun x => a + k < f x) = l.drop k := by
  induction l generalizing a n k with
  | nil => simp
  | cons x rest ih =>
      cases n with
      | zero => simp at h
      | succ n =>
          rw [List.map_cons, List.range'_succ, List.cons.injEq] at h
          obtain ⟨hx, hrest⟩ := h
          cases k with
          | zero =>
              rw [List.drop_zero, List.filter_eq_self]
              intro y hy
              have hmem : f y ∈ (x :: rest).map f := List.mem_map_of_mem hy
              rw [List.map_cons, hrest, hx, ← List.range'_succ, List.mem_range'_1] at hmem
              simp only [Nat.add_zero, decide_eq_true_eq]
              omega
          | succ k =>
              rw [List.drop_succ_cons, List.filter_cons_of_neg (by simp [hx]), ← ih hrest k]
              simp only [Nat.add_assoc, Nat.add_comm 1 k]

theorem ExpiresNothing.expires_eq {ns : String} {m : Members} {db : Database}
    (h : ExpiresNothing ns m db) (hrep : Represents ns db log) :
    ∀ b ∈ log.bins, expires m b = false := by
  intro b hb
  have hindexed : toText b ∈ indexedBins ns db := by
    rw [hrep.indexedBins_eq]
    exact List.mem_map_of_mem hb
  have hkeep := h _ hindexed
  rw [timeFromRecord_bin (EventLog.bin_lt hb)] at hkeep
  rw [expires, Bool.and_eq_false_iff, stale, decide_eq_false_iff_not]
  cases hall : allExecuted m with
  | false => exact Or.inl rfl
  | true => exact Or.inr (hkeep hall)

theorem expire_eq_self {m : Members} (h : ∀ b ∈ log.bins, expires m b = false) :
    log.expire m = log :=
  EventLog.keep_eq_self fun b hb => by simp [h b hb]

/-- Without expiry the rows stay. -/
theorem Expired.valueAt_data {ns : String} {m : Members} {db db' : Database}
    (h : Expired ns m log db db') (hno : ∀ b ∈ log.bins, expires m b = false) (eid : String) :
    valueAt db' (dataKey ns eid) = valueAt db (dataKey ns eid) := by
  rw [valueAt, valueAt, h.kept]
  rintro ⟨-, hk | hk | ⟨b, hb, hexp, -⟩⟩
  · exact dataKey_not_index ns ns eid (Or.inl hk)
  · exact dataKey_not_index ns ns eid (Or.inr hk)
  · simp [hno b hb] at hexp

section Query

variable {ops : List (Op String Event)} {clock : EventTime}

/-- The records after the position of a query are those of the events due to it. -/
theorem Follows.after_eq (h : Follows p sub ops s log clock) {q : String} (hq : q ≠ "") :
    log.after (storedPosition s.db q).2 = (due q ops).map Event.record := by
  have hfilter := filter_eq_drop (f := Event.eid) (a := 0) (k := seen q ops) h.eids
  rw [EventLog.after, h.records, List.filter_map, h.position q hq, due_eq_drop, ← hfilter]
  simp only [Nat.zero_add]
  rfl

theorem seen_le (q : String) (ops : List (Op String Event)) :
    seen q ops ≤ (published ops).length := Nat.sub_le _ _

/-- The position after a run of a query is the number of all events. -/
theorem Follows.lastPosition_eq (ho : p.eventsOptimize = true)
    (h : Follows p sub ops s log clock) {q : String} (hq : q ≠ "") :
    (lastPosition p (log.after (storedPosition s.db q).2) (storedPosition s.db q).2).toNat =
      (published ops).length := by
  apply le_antisymm
  · rw [lastPosition]
    cases hlast : (log.after (storedPosition s.db q).2).getLast? with
    | none =>
        dsimp only
        rw [h.position q hq]
        exact seen_le q ops
    | some last =>
        have hmem : last ∈ log.records :=
          (List.mem_filter.mp (List.mem_of_getLast? hlast)).1
        have hle := h.onClock.stored.bounded last hmem
        have hlt := h.onClock.inOrder.eid_lt last hmem
        dsimp only
        rw [if_pos ⟨ho, by omega⟩, UInt64.toNat_ofNat', Nat.mod_eq_of_lt (by omega), h.length_eq]
        exact hle
  · rcases List.eq_nil_or_concat (published ops) with hnil | ⟨init, e, he⟩
    · rw [hnil]
      exact Nat.zero_le _
    · have hmem : e ∈ published ops := by
        rw [he]
        simp
      have hrecord : e.record ∈ log.records := by
        rw [h.records]
        exact List.mem_map_of_mem hmem
      have heid : e.eid = (published ops).length := by
        have heids := congrArg List.getLast? h.eids
        rw [he, List.concat_eq_append, List.map_append, List.map_singleton, List.getLast?_concat,
          List.getLast?_range'] at heids
        rw [h.length_eq]
        have hpos : s.members.lastEid ≠ 0 := by
          rw [← h.length_eq, he]
          simp
        simp only [hpos, if_false, Option.some.injEq] at heids
        omega
      rw [← heid]
      exact le_lastPosition ho h.onClock.inOrder _ hrecord

/-- Without expiry a scan leaves the rows of all events. -/
theorem Follows.contents_expired (h : Follows p sub ops s log clock) {q : String}
    {now : EventTime} {db₁ : Database}
    (hkeep : ExpiresNothing sub.dbNamespace (scanMembers q now s) s.db)
    (hexp : Expired sub.dbNamespace (scanMembers q now s) log (markExecuting s.db q) db₁) :
    ∀ e ∈ published ops, valueAt db₁ (dataKey sub.dbNamespace (toIndex e.eid)) = e.content p := by
  intro e he
  rw [hexp.valueAt_data (hkeep.expires_eq h.onClock.stored.represents), valueAt_markExecuting]
  exact h.contents e he

/-- A run of a query yields what is due to it. -/
theorem Follows.scan_rows (hd : p.isDaemon = true) (ho : p.eventsOptimize = true)
    (h : Follows p sub ops s log clock) {q : String} (hq : q ≠ "") {now : EventTime}
    (hclock : clock ≤ now) (hlt : now.toNat < 2 ^ 63) (now' : EventTime)
    (hkeep : ExpiresNothing sub.dbNamespace (scanMembers q now s) s.db) :
    ((scheduledScan p sub q now now').run s).1 = (due q ops).map Event.yielded := by
  have hlog := expire_eq_self (hkeep.expires_eq h.onClock.stored.represents)
  obtain ⟨db₁, hexp, hrun⟩ := run_scan hd ho h.onClock.stored q now now'
  rw [hrun, h.onClock.span_eq ho hq hclock hlt, hlog, h.after_eq hq, List.filterMap_map,
    ← List.filterMap_eq_map]
  apply List.filterMap_congr
  intro e he
  have hmem : e ∈ published ops := (due_isSuffix q ops).mem he
  rw [Function.comp_apply, rowAt, Event.record, h.contents_expired hkeep hexp e hmem, rowOf_content]
  rfl

/-- A run of a query reads what is due to it. -/
theorem Follows.query (hd : p.isDaemon = true) (ho : p.eventsOptimize = true)
    (h : Follows p sub ops s log clock) {q : String} (hq : q ≠ "") {now now' : EventTime}
    (hclock : clock ≤ now) (hclock' : now ≤ now') (hlt : now'.toNat < 2 ^ 63)
    (hkeep : ExpiresNothing sub.dbNamespace (scanMembers q now s) s.db) :
    Follows p sub (ops ++ [.read q]) ((scheduledScan p sub q now now').run s).2 log now' := by
  have hlog := expire_eq_self (hkeep.expires_eq h.onClock.stored.represents)
  obtain ⟨hclocked, hpos⟩ := h.onClock.scan hd ho hq h.positive hclock hclock' hlt
  obtain ⟨db₁, hexp, hrun⟩ := run_scan hd ho h.onClock.stored q now now'
  rw [hlog] at hclocked hpos
  have hpub : published (ops ++ [Op.read q]) = published ops := by
    rw [published_concat]
    exact List.append_nil _
  have hafter : AgreesExcept IsPosition db₁ ((scheduledScan p sub q now now').run s).2.db := by
    rw [hrun]
    exact agreesExcept_savePosition db₁ _ _
  refine ⟨hclocked, UInt64.le_trans h.positive (UInt64.le_trans hclock hclock'), ?_, ?_, ?_, ?_, ?_⟩
  · rcases h.ready with hready | hready
    · left
      rw [hrun]
      exact hready
    · right
      rw [hafter.valueAt_eq fun hk => hk.not_eid sub.dbNamespace rfl,
        hexp.agreesExcept.valueAt_eq (eidKey_not_event _ _), valueAt_markExecuting, hready]
  · rw [hpub, h.records]
  · rw [hpub, h.eids, hrun]
    rfl
  · rw [hpub]
    intro e he
    rw [hafter.valueAt_eq (dataKey_not_position _ _)]
    exact h.contents_expired hkeep hexp e he
  · intro q' hq'
    rw [seen_concat_read, hpos q']
    by_cases hname : q' = q
    · rw [if_pos hname, if_pos hname.symm]
      exact h.lastPosition_eq ho hq
    · rw [if_neg hname, if_neg (Ne.symm hname)]
      exact h.position q' hq'

end Query

/-- The store follows the feed along every history. -/
theorem Timeline.follows (hd : p.isDaemon = true) (ho : p.eventsOptimize = true) {start : State}
    (hstart : Fresh start) {steps : List Step} {clock : EventTime}
    (h : Timeline p sub start steps s clock) :
    ∃ log, Follows p sub (feed steps) s log clock := by
  induction h with
  | nil hclock hlt => exact ⟨_, hstart.follows hclock hlt⟩
  | addBatch rows custom now _ hclock hlt htime hroom hcount ih =>
      obtain ⟨log, hlog⟩ := ih
      rw [feed_concat, Step.op, htime]
      exact hlog.addBatch hclock hlt htime hroom hcount
  | query name now now' _ hname hclock hclock' hlt hkeep ih =>
      obtain ⟨log, hlog⟩ := ih
      rw [feed_concat]
      exact ⟨log, hlog.query hd ho hname hclock hclock' hlt hkeep⟩

/-- Every run of a scheduled query yields, once and in order, the events that
no earlier run of it followed. -/
theorem scheduledScan_exactly_once (hd : p.isDaemon = true) (ho : p.eventsOptimize = true)
    {start : State} (hstart : Fresh start) {steps : List Step} {clock : EventTime}
    (h : Timeline p sub start steps s clock) {q : String} (hq : q ≠ "") {now now' : EventTime}
    (hclock : clock ≤ now) (hlt : now.toNat < 2 ^ 63)
    (hkeep : ExpiresNothing sub.dbNamespace (scanMembers q now s) s.db) :
    ((scheduledScan p sub q now now').run s).1 = (due q (feed steps)).map Event.yielded := by
  obtain ⟨log, hlog⟩ := h.follows hd ho hstart
  exact hlog.scan_rows hd ho hq hclock hlt now' hkeep

/-! ### A history -/

/-- A daemon with the optimization on. -/
def sampleProcess : Process := ⟨reference, true, true⟩

/-- A subscriber whose events do not expire. -/
def sampleSubscriber : Subscriber := ⟨"type", "name", 0, 1000⟩

/-- A row with one column. -/
def sampleRow (value : String) : Row := (∅ : Row).insert "path" value

/-- Two events of the same second with a run of a query between them. -/
def sampleSteps : List Step :=
  [.addBatch [sampleRow "a"] 0 100, .query "q" 100 100, .addBatch [sampleRow "b"] 100 100]

/-- The state after the sample history. -/
def sampleState : State :=
  ((addBatch sampleProcess sampleSubscriber [sampleRow "b"] 100 100).run
    ((scheduledScan sampleProcess sampleSubscriber "q" 100 100).run
      ((addBatch sampleProcess sampleSubscriber [sampleRow "a"] 0 100).run ⟨∅, {}⟩).2).2).2

theorem sample_timeline :
    Timeline sampleProcess sampleSubscriber ⟨∅, {}⟩ sampleSteps sampleState 100 := by
  have h₀ : Timeline sampleProcess sampleSubscriber ⟨∅, {}⟩ [] ⟨∅, {}⟩ 100 :=
    .nil (by decide) (by decide)
  have h₁ := h₀.addBatch [sampleRow "a"] 0 100 (by decide)
    (by decide) (by decide) (by decide +kernel) (by decide)
  have h₂ := h₁.query "q" 100 100 (by decide) (by decide) (by decide)
    (by decide) (by decide +kernel)
  exact h₂.addBatch [sampleRow "b"] 100 100 (by decide)
    (by decide) (by decide) (by decide +kernel) (by decide +kernel)

/-- The next run of the query expires no event. -/
theorem sample_expiresNothing :
    ExpiresNothing sampleSubscriber.dbNamespace (scanMembers "q" 100 sampleState)
      sampleState.db := by
  decide +kernel

/-- The second run of the query yields the second event only. -/
theorem scheduledScan_exactly_once_same_second :
    ((scheduledScan sampleProcess sampleSubscriber "q" 100 101).run sampleState).1 =
      (due "q" (feed sampleSteps)).map Event.yielded ∧
    (due "q" (feed sampleSteps)).map Event.eid = [2] := by
  refine ⟨?_, by decide +kernel⟩
  exact scheduledScan_exactly_once rfl rfl ⟨rfl, rfl, rfl⟩ sample_timeline (by decide) (by decide)
    (by decide) sample_expiresNothing

end Osquery.EventSubscribers
