import Osquery.EventSubscribers.TwoSubscribers

/-!
# Eviction of one subscriber next to another

A subscriber evicts its events when it has more of them than its buffer may
hold, and expires the bins that lie before its expire time. Bins and their
records are reached by exact keys, and the rows of a bin by a range between two
keys of the subscriber. The overflow check finds rows by a scan for the beginning
of the key, and the scanned beginning ends with the name and not with the dot
that follows it. It therefore counts and deletes the rows of every subscriber
whose data keys begin in the same way.

## Implementation notes

Eviction is stated for every content of the shared database in which both
subscribers have an index and record lists of their own; the rows may be any.
The bins that are expired are given as numbers, as in every call.
-/

namespace Osquery.EventSubscribers

open Foundation.AtomicProgram Foundation.JsonText Foundation.Numeral Foundation.Separated
open Foundation.Grouping Core.BackingStore Core.Conversions Core.Rows

variable {p : Process} {sub : Subscriber} {s : State} {log : EventLog}

/-! ### What expiry reaches -/

/-- The keys that the eviction of a subscriber reaches. -/
def IsEvictable (ns key : String) : Prop := IsIndex ns key ∨ IsBuffered ns key

theorem Removes.agreesExcept {P Q : String → Prop} {db db' : Database} (h : Removes P db db')
    (hPQ : ∀ key, P key → Q key) : AgreesExcept Q db db' := by
  intro d key hkey
  apply h.kept
  rintro ⟨hd, hk⟩
  exact hkey ⟨hd, hPQ key hk⟩

/-- Deleting records one by one reaches the rows of the subscriber only. -/
theorem run_dropExpired (sub : Subscriber) (rs : List Record) (s : State) :
    ∃ persisting db', (dropExpired sub (rs.map Record.asEventRecord)).run s =
        (persisting, { s with db := db' }) ∧
      AgreesExcept (IsBuffered sub.dbNamespace) s.db db' := by
  induction rs generalizing s with
  | nil => exact ⟨[], s.db, rfl, AgreesExcept.refl _ _⟩
  | cons r rest ih =>
      simp only [List.map_cons, dropExpired, Prog.run_bind, run_readMembers]
      by_cases hle : r.asEventRecord.2 ≤ s.members.expireTime
      · have hfirst : AgreesExcept (IsBuffered sub.dbNamespace) s.db
            (Ephemeral.remove s.db kEvents (dataKey sub.dbNamespace r.asEventRecord.1)) := by
          apply (removes_remove s.db _).agreesExcept
          rintro key rfl
          exact dataKey_isBuffered _ _
        obtain ⟨persisting, db', hrun, hagree⟩ := ih
          ⟨Ephemeral.remove s.db kEvents (dataKey sub.dbNamespace r.asEventRecord.1), s.members⟩
        refine ⟨persisting, db', ?_, hfirst.trans hagree⟩
        rw [if_pos hle, Prog.run_bind, run_deleteEvents]
        exact hrun
      · obtain ⟨persisting, db', hrun, hagree⟩ := ih s
        refine ⟨(r.asEventRecord.1 ++ ":" ++ toText r.asEventRecord.2.toNat) :: persisting, db', ?_,
          hagree⟩
        rw [if_neg hle, Prog.run_bind, hrun]
        rfl

theorem run_deleteData_agrees (sub : Subscriber) (all : Bool) (rs : List Record) (s : State) :
    ∃ persisting db', (deleteData sub all (rs.map Record.asEventRecord)).run s =
        (persisting, { s with db := db' }) ∧
      AgreesExcept (IsBuffered sub.dbNamespace) s.db db' := by
  cases all with
  | true =>
      obtain ⟨persisting, db', hrun, hrem⟩ := run_deleteData sub rs s
      refine ⟨persisting, db', hrun, hrem.agreesExcept fun key hkey => ?_⟩
      exact hkey.isPrefix_of (dataKey_isBuffered _)
  | false =>
      match rs with
      | [] => exact run_dropExpired sub [] s
      | [r] => exact run_dropExpired sub [r] s
      | first :: second :: rest => exact run_dropExpired sub (first :: second :: rest) s

/-- Expiring the records of a bin, all of them or those before the expire time. -/
theorem expireRecords_agrees (p : Process) (h : RecordsOf sub.dbNamespace s.db log) (b : ℕ)
    (all : Bool) :
    AgreesExcept (IsEvictable sub.dbNamespace) s.db
      ((expireRecords p sub "60" (toText b) all).run s).2.db := by
  have hrun := run_getRecords (p := p) h [b] false
  rw [List.flatMap_singleton, List.map_singleton] at hrun
  have hkey : "60" ++ "." ++ toText b = "60." ++ toText b := by
    rw [show ("60" : String) ++ "." = "60." by decide]
  simp only [expireRecords, Prog.run_bind, run_executedAllQueries]
  cases hall : allExecuted s.members with
  | false => exact AgreesExcept.refl _ _
  | true =>
      obtain ⟨persisting, db', hdel, hagree⟩ := run_deleteData_agrees sub all
        ((log.binRecords b).filter (passes p s.members false)) s
      have hrows : AgreesExcept (IsEvictable sub.dbNamespace) s.db db' :=
        hagree.mono fun _ hk => Or.inr hk
      have hrecord : IsEvictable sub.dbNamespace (recordKey sub.dbNamespace (toText b)) :=
        Or.inl (Or.inr ⟨b, rfl⟩)
      simp only [Bool.not_true, Bool.false_eq_true, if_false, Prog.run_bind, hkey, hrun, hdel,
        recordKey_eq_append]
      cases all with
      | true =>
          refine hrows.trans ((removes_remove db' _).agreesExcept ?_)
          rintro key rfl
          exact hrecord
      | false =>
          simp only [Bool.false_eq_true, if_false]
          split
          · refine hrows.trans ((agreesExcept_setValue db' _ _).mono ?_)
            rintro key rfl
            exact hrecord
          · exact hrows

/-- Expiring bins keeps the record lists those of a log. -/
theorem run_expireBins_agrees (p : Process) (es : List ℕ) (ps : List String)
    (hall : allExecuted s.members = true) (h : RecordsOf sub.dbNamespace s.db log) :
    ∃ persisting db', (expireBins p sub "60" (es.map toText) ps).run s =
        (persisting, { s with db := db' }) ∧
      AgreesExcept (IsEvictable sub.dbNamespace) s.db db' := by
  induction es generalizing s log ps with
  | nil => exact ⟨ps, s.db, rfl, AgreesExcept.refl _ _⟩
  | cons b rest ih =>
      obtain ⟨db₁, hrun, hrem⟩ := run_expireRecords (p := p) (b := b) hall h
      have hfirst := expireRecords_agrees p h b true
      rw [hrun] at hfirst
      obtain ⟨persisting, db₂, hrun₂, hagree⟩ := ih (s := { s with db := db₁ })
        (ps.filter (· ≠ toText b)) hall (h.remove hrem)
      refine ⟨persisting, db₂, ?_, hfirst.trans hagree⟩
      rw [List.map_cons, expireBins, Prog.run_bind, hrun]
      exact hrun₂

theorem expireIndexes_agrees (p : Process) (indexes : List String) (es : List ℕ)
    (h : RecordsOf sub.dbNamespace s.db log) :
    AgreesExcept (IsEvictable sub.dbNamespace) s.db
      ((expireIndexes p sub "60" indexes (es.map toText)).run s).2.db := by
  simp only [expireIndexes, Prog.run_bind, run_executedAllQueries]
  cases hall : allExecuted s.members with
  | false => exact AgreesExcept.refl _ _
  | true =>
      obtain ⟨persisting, db', hrun, hagree⟩ := run_expireBins_agrees p es indexes hall h
      simp only [Bool.not_true, Bool.false_eq_true, if_false, Prog.run_bind, hrun,
        indexKey_eq_append]
      refine hagree.trans ((agreesExcept_setValue db' _ _).mono ?_)
      rintro key rfl
      exact Or.inl (Or.inl rfl)

/-! ### Two subscribers -/

/-- The calls that evict events of a subscriber. -/
inductive Eviction
  | check
  | records (bin : ℕ) (all : Bool)
  | indexes (bins : List String) (expirations : List ℕ)

def Eviction.exec (p : Process) (sub : Subscriber) (s : State) : Eviction → State
  | .check => ((expireCheck p sub).run s).2
  | .records bin all => ((expireRecords p sub "60" (toText bin) all).run s).2
  | .indexes bins expirations =>
      ((expireIndexes p sub "60" bins (expirations.map toText)).run s).2

/-- Whatever is called, it reaches the evictable keys only. -/
theorem Eviction.agrees (p : Process) (h : Represents sub.dbNamespace s.db log)
    (h60 : WholeMinute s.members) (o : Eviction) :
    AgreesExcept (IsEvictable sub.dbNamespace) s.db (o.exec p sub s).db := by
  cases o with
  | check =>
      obtain ⟨_, _, _, _, _, hagree⟩ := evicted_expireCheck p h h60
      exact hagree
  | records bin all => exact expireRecords_agrees p h.records bin all
  | indexes bins expirations => exact expireIndexes_agrees p bins expirations h.records

/-- The database holds the events of both subscribers. -/
structure StoresBoth (a b : Subscriber) (w : Pair) : Prop where
  first : ∃ log, Represents a.dbNamespace w.db log
  second : ∃ log, Represents b.dbNamespace w.db log
  wholeMinute : WholeMinute w.first

/-- The overflow check finds more events than the buffer may hold. -/
def Overfull (sub : Subscriber) (db : Database) : Prop :=
  sub.eventsMax.toNat < (bufferedKeys sub db).length

/-- The eviction of the first subscriber leaves the keys of the second alone,
and its decision does not depend on them. -/
structure EvictsOwn (p : Process) (a b : Subscriber) : Prop where
  kept : ∀ w, StoresBoth a b w → ∀ (o : Eviction) (key : String), Owned b.dbNamespace key →
    lookup (o.exec p a ⟨w.db, w.first⟩).db kEvents key = lookup w.db kEvents key
  decision : ∀ w w', StoresBoth a b w → StoresBoth a b w' →
    AgreesExcept (Owned b.dbNamespace) w.db w'.db → (Overfull a w.db ↔ Overfull a w'.db)

/-- No data key of the second subscriber begins like those of the first. -/
def NamesApart (a b : Subscriber) : Prop :=
  ∀ n, ¬a.dbNamespace.toList <+: (b.dbNamespace ++ "." ++ toIndex n).toList

theorem isBuffered_dataKey_iff (ns ns' eid : String) :
    IsBuffered ns (dataKey ns' eid) ↔ ns.toList <+: (ns' ++ "." ++ eid).toList := by
  simp only [IsBuffered, dataKey, String.toList_append, List.append_assoc,
    List.prefix_append_right_inj]

theorem Owned.not_evictable {a b : Subscriber} (hne : a.dbNamespace ≠ b.dbNamespace)
    (hapart : NamesApart a b) {key : String} (h : Owned b.dbNamespace key) :
    ¬IsEvictable a.dbNamespace key := by
  rintro (hidx | hbuf)
  · exact h.disjoint hne.symm (Or.inr (Or.inl hidx))
  · rcases h with rfl | hidx | ⟨n, rfl⟩
    · exact eidKey_not_event a.dbNamespace _ (Or.inr hbuf.isData)
    · rcases hidx with rfl | ⟨bin, rfl⟩
      · exact indexKey_not_isData _ hbuf.isData
      · exact recordKey_not_isData _ _ hbuf.isData
    · exact hapart n ((isBuffered_dataKey_iff _ _ _).mp hbuf)

/-! ### What the overflow check counts -/

theorem mem_bufferedKeys {db : Database} {key : String} :
    key ∈ bufferedKeys sub db ↔
      IsBuffered sub.dbNamespace key ∧ (lookup db kEvents key).isSome = true :=
  mem_scan_zero.trans and_comm

theorem nodup_bufferedKeys (sub : Subscriber) (db : Database) : (bufferedKeys sub db).Nodup :=
  nodup_scan db kEvents _ 0

/-- Lists of keys without repetition that hold the same keys are equally long. -/
theorem length_bufferedKeys {db : Database} {keys : List String} (hkeys : keys.Nodup)
    (h : ∀ key, key ∈ bufferedKeys sub db ↔ key ∈ keys) :
    (bufferedKeys sub db).length = keys.length :=
  ((List.perm_ext_iff_of_nodup (nodup_bufferedKeys sub db) hkeys).mpr h).length_eq

theorem overfull_congr {db db' : Database}
    (h : ∀ key, IsBuffered sub.dbNamespace key → lookup db' kEvents key = lookup db kEvents key) :
    Overfull sub db ↔ Overfull sub db' := by
  have hlen : (bufferedKeys sub db).length = (bufferedKeys sub db').length := by
    apply length_bufferedKeys (nodup_bufferedKeys sub db')
    intro key
    rw [mem_bufferedKeys, mem_bufferedKeys]
    exact and_congr_right fun hkey => by rw [h key hkey]
  rw [Overfull, Overfull, hlen]

/-- The rows of the first ids, without their records. -/
def filledBuffer (sub : Subscriber) (n : ℕ) : Database :=
  Ephemeral.putBatch ∅ kEvents
    ((List.range n).map fun i => (dataKey sub.dbNamespace (toIndex i), ""))

theorem isSome_lookup_filledBuffer {n : ℕ} {key : String} :
    (lookup (filledBuffer sub n) kEvents key).isSome = true ↔
      key ∈ (List.range n).map fun i => dataKey sub.dbNamespace (toIndex i) := by
  rw [filledBuffer, isSome_lookup_putBatch, List.map_map, lookup_empty]
  simp

theorem nodup_dataKeys (ns : String) (n : ℕ) :
    ((List.range n).map fun i => dataKey ns (toIndex i)).Nodup := by
  apply List.nodup_range.map
  intro i j hij
  exact toIndex_inj.mp (dataKey_inj.mp hij)

theorem length_filledBuffer (sub : Subscriber) (n : ℕ) :
    (bufferedKeys sub (filledBuffer sub n)).length = n := by
  rw [length_bufferedKeys (nodup_dataKeys sub.dbNamespace n), List.length_map, List.length_range]
  intro key
  rw [mem_bufferedKeys, isSome_lookup_filledBuffer, and_iff_right_iff_imp]
  intro hkey
  obtain ⟨i, -, rfl⟩ := List.mem_map.mp hkey
  exact dataKey_isBuffered _ _

/-- One more key that the scan finds is counted. -/
theorem length_bufferedKeys_setValue {db : Database} {key : String}
    (hkey : IsBuffered sub.dbNamespace key) (hnew : lookup db kEvents key = none) (value : String) :
    (bufferedKeys sub (Ephemeral.setValue db kEvents key value)).length =
      (bufferedKeys sub db).length + 1 := by
  have hfresh : key ∉ bufferedKeys sub db := by
    rw [mem_bufferedKeys, hnew]
    simp
  rw [length_bufferedKeys ((List.nodup_cons.mpr ⟨hfresh, nodup_bufferedKeys sub db⟩))]
  · rfl
  intro k
  rw [List.mem_cons, mem_bufferedKeys, mem_bufferedKeys, lookup_setValue]
  by_cases hk : k = key
  · subst hk
    simp [hkey]
  · simp [hk, Ne.symm hk]

theorem represents_of_rows {ns : String} {db : Database} (h : AgreesExcept IsData ∅ db) :
    Represents ns db EventLog.empty :=
  (represents_empty fun key => lookup_empty kEvents key).congr h (indexKey_not_isData ns)
    fun _ => recordKey_not_isData ns _

theorem filledBuffer_agrees (sub : Subscriber) (n : ℕ) :
    AgreesExcept IsData ∅ (filledBuffer sub n) := by
  apply agreesExcept_putBatch
  intro d hd
  obtain ⟨i, -, rfl⟩ := List.mem_map.mp hd
  exact dataKey_isPrefix _ _

/-! ### When eviction stays with its subscriber -/

/-- A buffer that is full overflows by one row of another subscriber. -/
theorem not_evictsOwn {a b : Subscriber} (hne : a.dbNamespace ≠ b.dbNamespace) {n : ℕ}
    (hclash : IsBuffered a.dbNamespace (dataKey b.dbNamespace (toIndex n))) :
    ¬EvictsOwn p a b := by
  intro h
  have hother : lookup (filledBuffer a a.eventsMax.toNat) kEvents
      (dataKey b.dbNamespace (toIndex n)) = none := by
    rw [← Option.not_isSome_iff_eq_none, isSome_lookup_filledBuffer]
    intro hmem
    obtain ⟨i, -, hi⟩ := List.mem_map.mp hmem
    exact hne (dataKey_ns_inj hi)
  have hagree := filledBuffer_agrees a a.eventsMax.toNat
  have hset := agreesExcept_setValue (filledBuffer a a.eventsMax.toNat)
    (dataKey b.dbNamespace (toIndex n)) ""
  have hagree' : AgreesExcept IsData ∅ (Ephemeral.setValue (filledBuffer a a.eventsMax.toNat)
      kEvents (dataKey b.dbNamespace (toIndex n)) "") := by
    refine hagree.trans (hset.mono ?_)
    rintro key rfl
    exact dataKey_isPrefix _ _
  have hfull := (h.decision ⟨filledBuffer a a.eventsMax.toNat, {}, {}⟩
    ⟨Ephemeral.setValue (filledBuffer a a.eventsMax.toNat) kEvents
      (dataKey b.dbNamespace (toIndex n)) "", {}, {}⟩
    ⟨⟨_, represents_of_rows hagree⟩, ⟨_, represents_of_rows hagree⟩, rfl⟩
    ⟨⟨_, represents_of_rows hagree'⟩, ⟨_, represents_of_rows hagree'⟩, rfl⟩
    (hset.mono fun key hkey => hkey ▸ Or.inr (Or.inr ⟨n, rfl⟩))).mpr
  rw [Overfull, Overfull, length_bufferedKeys_setValue hclash hother,
    length_filledBuffer] at hfull
  exact absurd (hfull (Nat.lt_succ_self _)) (lt_irrefl _)

/-- Eviction stays with its subscriber exactly when no data key of the other
subscriber begins with the name of this one. -/
theorem evictsOwn_iff (p : Process) {a b : Subscriber} (hne : a.dbNamespace ≠ b.dbNamespace) :
    EvictsOwn p a b ↔ NamesApart a b := by
  constructor
  · intro h n hn
    exact not_evictsOwn hne ((isBuffered_dataKey_iff _ _ _).mpr hn) h
  · intro hapart
    constructor
    · intro w hw o key hkey
      obtain ⟨log, hlog⟩ := hw.first
      apply Eviction.agrees (s := ⟨w.db, w.first⟩) p hlog hw.wholeMinute o
      rintro ⟨-, hk⟩
      exact hkey.not_evictable hne hapart hk
    · intro w w' _ _ hagree
      apply overfull_congr
      intro key hkey
      apply hagree
      rintro ⟨-, hk⟩
      exact hk.not_evictable hne hapart (Or.inr hkey)

/-- Two names of which none begins the other. -/
theorem evictsOwn_other :
    otherSubscriber.dbNamespace ≠ sampleSubscriber.dbNamespace ∧
      EvictsOwn sampleProcess otherSubscriber sampleSubscriber := by
  refine ⟨other_ne, (evictsOwn_iff sampleProcess other_ne).mpr fun n hn => ?_⟩
  simp [Subscriber.dbNamespace, otherSubscriber, sampleSubscriber] at hn

/-! ### A name that begins another -/

/-- Two subscribers that keep one event each; the name of the first begins the
name of the second. -/
def shortSubscriber : Subscriber := ⟨"type", "name", 0, 1⟩

def longSubscriber : Subscriber := ⟨"type", "name2", 0, 1⟩

/-- Both subscribers add two events. -/
def crowdedPair : Pair :=
  let w := ((⟨∅, {}, {}⟩ : Pair).onSecond
    (addBatch sampleProcess longSubscriber [sampleRow "a", sampleRow "b"] 0 100)).2
  (w.onFirst (addBatch sampleProcess shortSubscriber [sampleRow "c", sampleRow "d"] 0 100)).2

theorem crowdedPair_stores : StoresBoth shortSubscriber longSubscriber crowdedPair := by
  have hstart : PairHistory sampleProcess shortSubscriber longSubscriber ⟨∅, {}, {}⟩ ⟨∅, {}⟩ :=
    PairHistory.start ⟨rfl, rfl, rfl⟩ ⟨rfl, rfl, rfl⟩
  have hlong := hstart.addSecond [sampleRow "a", sampleRow "b"] 0 100 (by decide +kernel)
    (by decide +kernel)
  have hshort := hlong.addFirst [sampleRow "c", sampleRow "d"] 0 100 (by decide +kernel)
  obtain ⟨logFirst, log, htog⟩ := hshort.together rfl rfl (by decide)
  exact ⟨⟨logFirst, htog.first.represents⟩, ⟨log, htog.second.represents⟩, htog.first.wholeMinute⟩

/-- The check of the first subscriber deletes the events of the second. -/
theorem evicts_other_subscriber :
    ¬∀ (p : Process) (a b : Subscriber), a.dbNamespace ≠ b.dbNamespace → EvictsOwn p a b := by
  intro h
  have hown := h sampleProcess shortSubscriber longSubscriber (by decide)
  have hkept := hown.kept crowdedPair crowdedPair_stores .check
    (dataKey longSubscriber.dbNamespace (toIndex 1)) (Or.inr (Or.inr ⟨1, rfl⟩))
  have hbefore : (lookup crowdedPair.db kEvents
      (dataKey longSubscriber.dbNamespace (toIndex 1))).isSome = true := by
    decide +kernel
  have hafter : (lookup (Eviction.check.exec sampleProcess shortSubscriber
      ⟨crowdedPair.db, crowdedPair.first⟩).db kEvents
        (dataKey longSubscriber.dbNamespace (toIndex 1))).isSome = false := by
    decide +kernel
  rw [hkept, hbefore] at hafter
  exact Bool.false_ne_true hafter.symm

end Osquery.EventSubscribers
