import Osquery.EventSubscribers.Threads

/-!
# Scans and batches next to another thread

Both threads keep a bin that does not expire: reading and expiring other bins is
quiet, and an index is rewritten with the bins that the thread read, of which
this one is not taken out. What the publisher records stays recorded, since the
query thread never writes the record list of the bin.
-/

namespace Osquery.EventSubscribers

open Foundation.AtomicProgram Foundation.JsonText Foundation.Numeral Foundation.Separated
open Foundation.Grouping Foundation.Interleaving Core.BackingStore Core.Conversions Core.Rows

variable {ns : String} {b : ℕ} {p : Process} {sub : Subscriber}

/-! ### Quiet programs -/

theorem only_readMembers : readMembers.Only (Quiet ns b) := Prog.only_perform trivial

theorem only_updateMembers {f : Members → Members}
    (h : ∀ m, (f m).lastEid = m.lastEid ∧ (WholeMinute m → WholeMinute (f m))) :
    (updateMembers f).Only (Quiet ns b) := Prog.only_perform h

theorem only_readEvents {key : String} (h : key ≠ indexKey ns) :
    (readValue kEvents key : Prog Access String).Only (Quiet ns b) := by
  refine Prog.only_map (Prog.only_perform ?_)
  exact fun hk => h hk.2

theorem only_readSettings {key : String} :
    (readValue kPersistentSettings key : Prog Access String).Only (Quiet ns b) := by
  refine Prog.only_map (Prog.only_perform ?_)
  exact fun hk => absurd hk.1 (by decide)

theorem only_setEvents {key value : String} (h : QuietKey ns b key) :
    (setDatabaseValue kEvents key value : Prog Access _).Only (Quiet ns b) := by
  refine Prog.only_perform ⟨rfl, ?_⟩
  intro d hd
  rw [List.mem_singleton.mp hd]
  exact h

theorem only_deleteEvents {key : String} (h : QuietKey ns b key) :
    (deleteDatabaseValue kEvents key : Prog Access _).Only (Quiet ns b) :=
  Prog.only_perform ⟨rfl, h⟩

theorem only_deleteRange {low high : String} (h : ∀ key, low ≤ key → key ≤ high → QuietKey ns b key) :
    (deleteDatabaseRange kEvents low high : Prog Access _).Only (Quiet ns b) :=
  Prog.only_perform ⟨rfl, h⟩

theorem only_executedAllQueries : executedAllQueries.Only (Quiet ns b) :=
  Prog.only_bind only_readMembers fun _ => Prog.only_pure _

theorem recordsKey_ne_index (ns' ns index : String) :
    "records." ++ ns' ++ "." ++ index ≠ indexKey ns := by
  intro h
  have hl := congrArg String.toList h
  simp [indexKey] at hl

theorem only_getRecords (p : Process) (sub : Subscriber) (indexes : List String) (optimize : Bool) :
    (getRecords p sub indexes optimize).Only (Quiet ns b) := by
  induction indexes with
  | nil => exact Prog.only_pure _
  | cons index rest ih =>
      refine Prog.only_bind (only_readEvents (recordsKey_ne_index _ _ _)) fun _ => ?_
      refine Prog.only_bind only_readMembers fun _ => ?_
      exact Prog.only_bind ih fun _ => Prog.only_pure _

theorem quietKey_data (ns' eid : String) : QuietKey ns b ("data." ++ ns' ++ "." ++ eid) :=
  QuietKey.data (dataKey_isPrefix ns' eid)

theorem only_dropExpired (sub : Subscriber) (records : List EventRecord) :
    (dropExpired sub records).Only (Quiet ns b) := by
  induction records with
  | nil => exact Prog.only_pure _
  | cons record rest ih =>
      refine Prog.only_bind only_readMembers fun m => ?_
      split
      · exact Prog.only_bind (only_deleteEvents (quietKey_data _ _)) fun _ => ih
      · exact Prog.only_bind ih fun _ => Prog.only_pure _

theorem only_deleteData (sub : Subscriber) (all : Bool) (records : List EventRecord) :
    (deleteData sub all records).Only (Quiet ns b) := by
  rw [deleteData.eq_def]
  split
  · split
    · refine Prog.only_bind (only_deleteRange fun key hlow hhigh => ?_) fun _ => Prog.only_pure _
      exact QuietKey.data (isPrefix_of_between (dataKey_isPrefix _ _) (dataKey_isPrefix _ _) hlow hhigh)
    · exact only_dropExpired sub _
  · exact only_dropExpired sub _

/-- Expiring the records of another bin. -/
theorem only_expireRecords (p : Process) {bin : String} (h : bin ≠ toText b) (all : Bool) :
    (expireRecords p sub "60" bin all).Only (Quiet sub.dbNamespace b) := by
  have hkey : QuietKey sub.dbNamespace b
      ("records." ++ sub.dbNamespace ++ "." ++ "60" ++ "." ++ bin) := by
    rw [recordKey_eq_append]
    exact QuietKey.of_record h
  refine Prog.only_bind only_executedAllQueries fun executed => ?_
  split
  · exact Prog.only_pure _
  · refine Prog.only_bind (only_getRecords p sub _ _) fun expired_records => ?_
    refine Prog.only_bind (only_deleteData sub all _) fun persisting_records => ?_
    split
    · exact Prog.only_bind (only_deleteEvents hkey) fun _ => Prog.only_pure _
    · split
      · exact Prog.only_bind (only_setEvents hkey) fun _ => Prog.only_pure _
      · exact Prog.only_pure _

/-! ### Reading and rewriting the index -/

section Expiry

variable {t : Thread} {F : State → Prop} {bins : List String} {w : Shared}

/-- Where a step is permitted, the bin has not expired. -/
theorem safe_readMembers (hF : Framed ns b t F) (hw : Aware ns b t F bins w) :
    (discipline ns b t).Safe
      (fun m w => Aware ns b t F bins w ∧ stale m b = false ∧ WholeMinute m) readMembers w := by
  refine Discipline.safe_perform (fun m => hF.stable_aware_and bins _) ?_
  intro w' hr hper
  have hw' := hF.stable_aware bins w w' hr hw
  have hquiet : Quiet ns b Members .read := trivial
  have hup := quiet_overtaken hquiet t w'
  refine ⟨guarantee_of_kept (Kept.refl _) id fun _ => hup, ⟨hw'.sound, hw'.frame, ?_⟩, hper.2,
    hw'.sound.wholeMinute⟩
  intro hlast
  exact hw'.knows fun ht => hup ▸ hlast ht

variable (hbin : ∃ r : Record, r.bin = b)

include hbin

/-- The bin is not among those that expire. -/
theorem safe_visitBin (hF : Framed sub.dbNamespace b t F) (sort : Bool) (bin : String)
    (hw : Aware sub.dbNamespace b t F bins w) :
    (discipline sub.dbNamespace b t).Safe
      (fun expired w => Aware sub.dbNamespace b t F bins w ∧ (bin = toText b → expired = false))
      (visitBin p sub sort bin) w := by
  by_cases h : bin = toText b
  · subst h
    obtain ⟨r, rfl⟩ := hbin
    simp only [visitBin, timeFromRecord_bin r.bin_lt]
    refine (safe_readMembers hF hw).bind ?_
    rintro m w ⟨hw, hstale, -⟩
    rw [stale, decide_eq_false_iff_not] at hstale
    rw [if_neg hstale]
    refine (safe_readMembers hF hw).bind ?_
    rintro m w ⟨hw, hstale, hminute⟩
    rw [if_neg (by simp [not_straddles hminute hstale])]
    exact Discipline.safe_pure (hF.stable_aware_and bins _) ⟨hw, fun _ => rfl⟩
  · refine (safe_quiet hF ?_ hw).mono fun expired w hw => ⟨hw, fun hb => absurd hb h⟩
    refine Prog.only_bind only_readMembers fun m => ?_
    split
    · exact Prog.only_pure _
    · refine Prog.only_bind only_readMembers fun m => ?_
      split
      · exact Prog.only_bind (only_expireRecords p h false) fun _ => Prog.only_pure _
      · exact Prog.only_pure _

theorem safe_visitBins (hF : Framed sub.dbNamespace b t F) (l_start r_stop : EventTime)
    (sort : Bool) (visited : List String) (hw : Aware sub.dbNamespace b t F bins w) :
    (discipline sub.dbNamespace b t).Safe
      (fun found w => Aware sub.dbNamespace b t F bins w ∧ toText b ∉ found.2)
      (visitBins p sub l_start r_stop sort visited) w := by
  induction visited generalizing w with
  | nil => exact Discipline.safe_pure (hF.stable_aware_and bins _) ⟨hw, List.not_mem_nil⟩
  | cons bin rest ih =>
      rw [visitBins]
      refine (safe_visitBin hbin hF sort bin hw).bind ?_
      rintro expired w ⟨hw, hexpired⟩
      refine (ih hw).bind ?_
      rintro ⟨indexes, expirations⟩ w ⟨hw, hnot⟩
      refine Discipline.safe_pure (hF.stable_aware_and bins _) ⟨hw, ?_⟩
      dsimp only
      split
      · intro hmem
        rcases List.mem_cons.mp hmem with heq | hmem
        · exact Bool.false_ne_true ((hexpired heq.symm).symm.trans ‹expired = true›)
        · exact hnot hmem
      · exact hnot

omit hbin

/-- The bins that expire are taken out of the list. -/
theorem safe_expireBins (hF : Framed sub.dbNamespace b t F) {expirations : List String}
    (hnot : toText b ∉ expirations) (persisting : List String)
    (hw : Aware sub.dbNamespace b t F bins w) :
    (discipline sub.dbNamespace b t).Safe
      (fun left w => Aware sub.dbNamespace b t F bins w ∧
        left = persisting.filter fun bin => decide (bin ∉ expirations))
      (expireBins p sub "60" expirations persisting) w := by
  induction expirations generalizing w persisting with
  | nil =>
      refine Discipline.safe_pure (hF.stable_aware_and bins _) ⟨hw, ?_⟩
      simp
  | cons bin rest ih =>
      have hbin : bin ≠ toText b := fun h => hnot (h ▸ List.mem_cons_self)
      rw [expireBins]
      refine (safe_quiet hF (only_expireRecords p hbin true) hw).bind fun _ w hw => ?_
      refine (ih (fun h => hnot (List.mem_cons_of_mem _ h)) _ hw).mono ?_
      rintro left w ⟨hw, rfl⟩
      refine ⟨hw, ?_⟩
      rw [List.filter_filter]
      apply List.filter_congr
      intro x _
      simp [Bool.and_comm]

theorem indexKey_not_recordList (ns : String) :
    ("records." ++ ns ++ ".60.").toList.isPrefixOf (indexKey ns).toList = false := by
  rw [Bool.eq_false_iff, Ne, List.isPrefixOf_iff_prefix]
  rintro ⟨rest, h⟩
  simp [indexKey] at h

/-- The index is rewritten with the bins that were read. -/
theorem safe_rewriteIndex (hF : Framed ns b t F) {left : List String}
    (hleft : ∀ bin ∈ left, ',' ∉ bin.toList) (hmem : toText b ∈ bins → toText b ∈ left)
    (hw : Aware ns b t F bins w) :
    (discipline ns b t).Safe (fun _ => Aware ns b t F [toText b])
      (setDatabaseValue kEvents (indexKey ns) (join left ",") : Prog Access _) w := by
  refine Discipline.safe_perform (fun _ => hF.stable_aware _) ?_
  rintro w' hr ⟨hup, -⟩
  have hw' := hF.stable_aware bins w w' hr hw
  have hwrites : writesIndex ns _
      (.database (.putBatch kEvents [(indexKey ns, join left ",")])) = true := by
    simp [writesIndex]
  have hadds : addsBin ns _
      (.database (.putBatch kEvents [(indexKey ns, join left ",")])) = false := by
    rw [addsBin, List.any_cons, indexKey_not_recordList, List.any_nil, Bool.or_false,
      Bool.and_false]
  have hkept : Kept ns b w'.state
      ⟨Ephemeral.setValue w'.state.db kEvents (indexKey ns) (join left ","), w'.state.members⟩ := by
    refine ⟨?_, ?_, rfl⟩
    · rw [valueAt_setValue, if_neg (indexKey_ne_recordKey ns _).symm]
    · rw [valueAt_setValue, if_neg (eidKey_not_index ns)]
  have hsound : Sound ns b
      ⟨Ephemeral.setValue w'.state.db kEvents (indexKey ns) (join left ","), w'.state.members⟩ := by
    refine ⟨fun htext => ?_, hw'.sound.wholeMinute⟩
    rw [hkept.text] at htext
    have hknown := hw'.knows (fun ht => hup ht hwrites) htext
    rw [indexedBins, valueAt_setValue, if_pos rfl]
    exact mem_pieces_join rfl hleft (hmem hknown) (toText_ne_empty b)
  refine ⟨guarantee_of_kept hkept (fun _ => hsound) ?_,
    aware_of_sound hsound (hF.kept _ _ hkept hw'.frame)⟩
  rintro rfl
  exact (congrArg (w'.overtaken || ·) hadds).trans (Bool.or_false _)

theorem safe_expireIndexes (hF : Framed sub.dbNamespace b t F) {expirations : List String}
    (hbins : ∀ bin ∈ bins, ',' ∉ bin.toList) (hnot : toText b ∉ expirations)
    (hw : Aware sub.dbNamespace b t F bins w) :
    (discipline sub.dbNamespace b t).Safe (fun _ => Aware sub.dbNamespace b t F [toText b])
      (expireIndexes p sub "60" bins expirations) w := by
  rw [expireIndexes]
  refine (safe_quiet hF only_executedAllQueries hw).bind fun executed w hw => ?_
  split
  · exact Discipline.safe_pure (hF.stable_aware _) (aware_of_sound hw.sound hw.frame)
  · refine (safe_expireBins hF hnot bins hw).bind ?_
    rintro left w ⟨hw, rfl⟩
    rw [indexKey_eq_append]
    refine (safe_rewriteIndex hF ?_ ?_ hw).bind fun _ w hw => ?_
    · exact fun bin hbin => hbins bin (List.mem_filter.mp hbin).1
    · exact fun hmem => List.mem_filter.mpr ⟨hmem, decide_eq_true hnot⟩
    · exact Discipline.safe_pure (hF.stable_aware _) hw

/-- The bins of an index that was just read. -/
theorem safe_readIndex (hF : Framed ns b t F) (hw : Aware ns b t F bins w) :
    (discipline ns b t).Safe (fun content => Aware ns b t F (pieces content ","))
      (readValue kEvents (indexKey ns) : Prog Access String) w := by
  apply Discipline.Safe.map
  refine Discipline.safe_perform (fun _ => hF.stable_aware _) ?_
  rintro w' hr -
  have hw' := hF.stable_aware bins w w' hr hw
  refine ⟨guarantee_of_kept (Kept.refl _) id ?_, hw'.sound, hw'.frame, ?_⟩
  · rintro rfl
    exact Bool.or_false _
  · intro _ htext
    have hlisted := hw'.sound.listed htext
    rw [indexedBins, valueAt, ← toOption_get] at hlisted
    exact hlisted

include hbin

/-- Reading the index keeps the bin, whatever expires. -/
theorem safe_getIndexes (p : Process) (hF : Framed sub.dbNamespace b t F) (start stop : EventTime)
    (sort : Bool) (hw : Aware sub.dbNamespace b t F bins w) :
    (discipline sub.dbNamespace b t).Safe (fun _ => Aware sub.dbNamespace b t F [toText b])
      (getIndexes p sub start stop sort) w := by
  have hstable := hF.stable_aware [toText b]
  rw [getIndexes]
  refine (safe_readIndex hF hw).bind fun content w hw => ?_
  split
  · exact Discipline.safe_pure hstable (aware_of_sound hw.sound hw.frame)
  · rename_i hcontent
    rw [pieces, if_neg hcontent] at hw
    refine (safe_visitBins hbin hF _ _ sort _ hw).bind ?_
    rintro ⟨indexes, expirations⟩ w ⟨hw, hnot⟩
    dsimp only
    split
    · refine (safe_expireIndexes hF ?_ hnot hw).bind fun _ w hw => ?_
      · exact fun bin hmem => not_mem_of_mem_splitAnyOf hmem (by simp)
      · exact Discipline.safe_pure hstable hw
    · exact Discipline.safe_pure hstable (aware_of_sound hw.sound hw.frame)

end Expiry

/-! ### The query thread -/

theorem only_rememberLast (p : Process) (records : List EventRecord) :
    (rememberLast p records).Only (Quiet ns b) := by
  rw [rememberLast]
  split
  · split
    · exact Prog.only_pure _
    · split
      · exact only_updateMembers fun m => ⟨rfl, id⟩
      · exact Prog.only_pure _
  · exact Prog.only_pure _

theorem only_yieldRows (p : Process) {keys : List String} (h : ∀ key ∈ keys, key ≠ indexKey ns) :
    (yieldRows p keys).Only (Quiet ns b) := by
  induction keys with
  | nil => exact Prog.only_pure _
  | cons key rest ih =>
      rw [yieldRows]
      refine Prog.only_bind (only_readEvents (h key List.mem_cons_self)) fun data_value => ?_
      refine Prog.only_bind (ih fun k hk => h k (List.mem_cons_of_mem _ hk)) fun rows => ?_
      split
      · exact Prog.only_pure _
      · exact Prog.only_pure _

theorem only_moveExpireTime (sub : Subscriber) (now : EventTime) :
    (moveExpireTime sub now).Only (Quiet ns b) := by
  rw [moveExpireTime]
  split
  · exact only_updateMembers fun m => ⟨rfl, fun _ => wholeMinute_sub _⟩
  · exact Prog.only_pure _

theorem only_saveOptimizeData (p : Process) (sub : Subscriber) :
    (saveOptimizeData p sub).Only (Quiet ns b) := by
  have hkey : ∀ pre name : String, pre.toList.head? = some 'o' → QuietKey ns b (pre ++ name) := by
    intro pre name hpre
    refine QuietKey.of_head (c := 'o') ?_ (by decide) (by decide) (by decide)
    rw [String.toList_append, List.head?_append, hpre]
    rfl
  rw [saveOptimizeData]
  split
  · refine Prog.only_bind only_readMembers fun m => ?_
    rw [setOptimizeData]
    refine Prog.only_bind only_readSettings fun query_name => ?_
    split
    · exact Prog.only_pure _
    · refine Prog.only_bind (only_setEvents (hkey _ _ (by decide))) fun _ => ?_
      exact Prog.only_bind (only_setEvents (hkey _ _ (by decide))) fun _ => Prog.only_pure _
  · exact Prog.only_pure _

/-- A scan keeps the bin. -/
theorem safe_get (p : Process) (hbin : ∃ r : Record, r.bin = b) (start stop now : EventTime)
    {w : Shared} (hw : Sound sub.dbNamespace b w.state) :
    (discipline sub.dbNamespace b .query).Safe (fun _ w => Sound sub.dbNamespace b w.state)
      (get p sub start stop now) w := by
  have hF : Framed sub.dbNamespace b .query fun _ => True := framed_true _
  rw [get]
  refine (safe_getIndexes hbin p hF start stop true (aware_of_sound hw trivial)).bind
    fun indexes w hw => ?_
  refine (safe_quiet hF ?_ hw).mono fun _ w hw => hw.sound
  refine Prog.only_bind (only_getRecords p sub _ _) fun records => ?_
  refine Prog.only_bind (only_rememberLast p records) fun _ => ?_
  refine Prog.only_bind (only_yieldRows p ?_) fun rows => ?_
  · intro key hkey
    obtain ⟨r, -, rfl⟩ := List.mem_map.mp hkey
    exact (quietKey_data (b := b) _ _).index
  · refine Prog.only_bind (only_moveExpireTime sub now) fun _ => ?_
    exact Prog.only_bind (only_saveOptimizeData p sub) fun _ => Prog.only_pure _

theorem safe_scanAll (p : Process) (hbin : ∃ r : Record, r.bin = b) (scans : List ScanCall)
    {w : Shared} (hw : Sound sub.dbNamespace b w.state) :
    (discipline sub.dbNamespace b .query).Safe (fun _ w => Sound sub.dbNamespace b w.state)
      (scanAll p sub scans) w := by
  induction scans generalizing w with
  | nil => exact Discipline.safe_pure (stable_sound _) hw
  | cons c rest ih =>
      rw [scanAll]
      refine (safe_get p hbin c.start c.stop c.now hw).bind fun rows w hw => ?_
      exact (ih hw).bind fun others w hw => Discipline.safe_pure (stable_sound _) hw

end Osquery.EventSubscribers
