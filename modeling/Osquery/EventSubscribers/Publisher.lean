import Osquery.EventSubscribers.ThreadSafety

/-!
# The publisher thread

The publisher draws its ids, may evict, stores its rows and appends its records
to the record list of a bin, which it adds to the index if the list was empty.
Next to the query thread the list that it read is still the list that it
overwrites, so nothing that it recorded in a bin that does not expire is lost,
and the bin is in the index unless the query thread overwrites one that it read
before.
-/

namespace Osquery.EventSubscribers

open Foundation.AtomicProgram Foundation.JsonText Foundation.Numeral Foundation.Separated
open Foundation.Grouping Foundation.Interleaving Core.BackingStore Core.Conversions Core.Rows

variable {ns : String} {b : ℕ} {p : Process} {sub : Subscriber}

section Frames

variable (ns : String) (b : ℕ)

/-- The last id is known, and these entries are in the record list of the bin. -/
structure Counting (eid : ℕ) (entries : List String) (s : State) : Prop where
  lastEid : s.members.lastEid = eid
  entries : ∀ entry ∈ entries, entry ∈ recordEntries ns s.db (toText b)

/-- The next id follows the last one. -/
structure Progress (eid : ℕ) (entries : List String) (s : State) : Prop
    extends Counting ns b eid entries s where
  ready : Ready ns s

/-- The record list of the bin was read, if it is the list of this bin. -/
def HasRead (bin : ℕ) (record_value : String) (s : State) : Prop :=
  bin = b → valueAt s.db (recordKey ns (toText b)) = record_value

end Frames

theorem recordEntries_congr {db db' : Database} {bin : String}
    (h : valueAt db' (recordKey ns bin) = valueAt db (recordKey ns bin)) :
    recordEntries ns db' bin = recordEntries ns db bin := by
  rw [recordEntries, recordEntries, h]

theorem Counting.congr {eid : ℕ} {entries : List String} {s s' : State}
    (h : Counting ns b eid entries s) (hlast : s'.members.lastEid = s.members.lastEid)
    (htext : valueAt s'.db (recordKey ns (toText b)) = valueAt s.db (recordKey ns (toText b))) :
    Counting ns b eid entries s' := by
  refine ⟨hlast.trans h.lastEid, ?_⟩
  rw [recordEntries_congr htext]
  exact h.entries

theorem framed_counting (eid : ℕ) (entries : List String) :
    Framed ns b .publisher (Counting ns b eid entries) :=
  framed_publisher fun _ _ hkept h => h.congr hkept.lastEid hkept.text

theorem framed_progress (eid : ℕ) (entries : List String) :
    Framed ns b .publisher (Progress ns b eid entries) := by
  refine framed_publisher fun s s' hkept h => ⟨h.toCounting.congr hkept.lastEid hkept.text, ?_⟩
  rw [Ready, hkept.lastEid, hkept.eid]
  exact h.ready

theorem framed_hasRead {F : State → Prop} (hF : Framed ns b .publisher F) (bin : ℕ)
    (record_value : String) :
    Framed ns b .publisher fun s => F s ∧ HasRead ns b bin record_value s := by
  refine framed_publisher fun s s' hkept h => ⟨hF.kept s s' hkept h.1, fun hb => ?_⟩
  exact hkept.text.trans (h.2 hb)

/-! ### Steps of the publisher alone -/

section Steps

variable {F G : State → Prop} {bins : List String} {w : Shared}

/-- A step that leaves the index and the record list alone. -/
theorem safe_step {β : Type} {o : Access β} {A : β → Prop} (hF : Framed ns b .publisher F)
    (hG : Framed ns b .publisher G) (hadds : addsBin ns β o = false)
    (ho : ∀ s, F s → SameIndex ns b s (o.exec s).2 ∧ G (o.exec s).2 ∧ A (o.exec s).1)
    (hw : Aware ns b .publisher F bins w) :
    (discipline ns b .publisher).Safe (fun a w => Aware ns b .publisher G bins w ∧ A a)
      (Prog.perform o) w := by
  refine Discipline.safe_perform (fun a => hG.stable_aware_and bins _) ?_
  rintro w' hr -
  have hw' := hF.stable_aware bins w w' hr hw
  obtain ⟨hsame, hG', hA⟩ := ho w'.state hw'.frame
  have hup : (effect ns .publisher β o w').2.overtaken = w'.overtaken := by
    rw [effect, hadds, Bool.or_false]
  refine ⟨⟨fun h => h.congr hsame, fun h => hup ▸ h, fun _ htext => ?_⟩,
    ⟨hw'.sound.congr hsame, hG', fun _ htext => ?_⟩, hA⟩
  · rwa [← hsame.text]
  · apply hw'.knows fun h => absurd h publisher_ne_query
    rwa [← hsame.text]

theorem safe_readCounter {eid : ℕ} {entries : List String}
    (hw : Aware ns b .publisher (Progress ns b eid entries) bins w) :
    (discipline ns b .publisher).Safe
      (fun m w => Aware ns b .publisher (Progress ns b eid entries) bins w ∧ m.lastEid = eid)
      readMembers w :=
  safe_step (framed_progress _ _) (framed_progress _ _) rfl
    (fun _ hs => ⟨⟨rfl, rfl, id⟩, hs, hs.lastEid⟩) hw

/-- The counter is stored only before it moves on. -/
theorem safe_restoreEid {eid : ℕ} {entries : List String}
    (hw : Aware sub.dbNamespace b .publisher (Progress sub.dbNamespace b eid entries) bins w) :
    (discipline sub.dbNamespace b .publisher).Safe
      (fun result w => Aware sub.dbNamespace b .publisher
        (Progress sub.dbNamespace b eid entries) bins w ∧ result = .ok ())
      (restoreEid sub) w := by
  have hF : Framed sub.dbNamespace b .publisher (Progress sub.dbNamespace b eid entries) :=
    framed_progress _ _
  rw [restoreEid]
  refine (safe_readCounter hw).bind ?_
  rintro m w ⟨hw, hm⟩
  split
  · exact Discipline.safe_pure (hF.stable_aware_and bins _) ⟨hw, rfl⟩
  · rename_i hzero
    have hread : (discipline sub.dbNamespace b .publisher).Safe
        (fun text w => Aware sub.dbNamespace b .publisher
          (Progress sub.dbNamespace b eid entries) bins w ∧ text = "")
        (readValue kEvents ("eid." ++ sub.dbNamespace) : Prog Access String) w := by
      apply Discipline.Safe.map
      refine safe_step (A := fun r : Except String String => r.toOption.getD "" = "") hF hF rfl
        (fun s hs => ?_) hw
      refine ⟨⟨rfl, rfl, id⟩, hs, ?_⟩
      have hlast : s.members.lastEid = 0 := by
        rw [hs.lastEid, ← hm]
        exact not_not.mp hzero
      exact (congrArg (Option.getD · "") (toOption_get _ _ _)).trans
        (hs.ready.resolve_left (not_not.mpr hlast))
    refine hread.bind ?_
    rintro text w ⟨hw, rfl⟩
    have hcast : lexicalCast "0" = some 0 := by decide
    rw [if_pos rfl, hcast]
    refine (safe_step (A := fun _ => True) hF hF rfl (fun s hs => ?_) hw).bind fun _ w hw => ?_
    · have hs' : Access.exec (.update fun m => { m with lastEid := (0 : UInt64).toNat }) s =
          ((), s) := by
        rw [Access.exec, ← show s.members.lastEid = (0 : UInt64).toNat from
          hs.lastEid.trans (hm.symm.trans (not_not.mp hzero))]
      rw [hs']
      exact ⟨⟨rfl, rfl, id⟩, hs, trivial⟩
    · exact Discipline.safe_pure (hF.stable_aware_and bins _) ⟨hw.1, rfl⟩

/-- The counter is stored every ten ids. -/
theorem safe_storeCounter {eid : ℕ} {entries : List String} (value : String)
    (hw : Aware ns b .publisher (Counting ns b eid entries) bins w) :
    (discipline ns b .publisher).Safe
      (fun _ => Aware ns b .publisher (Counting ns b eid entries) bins)
      (setDatabaseValue kEvents (eidKey ns) value : Prog Access _) w := by
  have hF : Framed ns b .publisher (Counting ns b eid entries) := framed_counting _ _
  have hadds : addsBin ns _ (.database (.putBatch kEvents [(eidKey ns, value)])) = false := by
    simp [addsBin, writesIndex, (eidKey_not_index ns).symm]
  refine (safe_step (A := fun _ => True) hF hF hadds (fun s hs => ?_) hw).mono fun _ w h => h.1
  have hagree := agreesExcept_setValue s.db (eidKey ns) value
  have htext := hagree.valueAt_eq (eidKey_not_record ns (toText b))
  exact ⟨⟨htext, hagree.valueAt_eq (eidKey_not_index ns), id⟩, hs.congr rfl htext, trivial⟩

/-- The counter moves on, and its value is the next id. -/
theorem safe_nextEid {eid : ℕ} {entries : List String}
    (hw : Aware ns b .publisher (Counting ns b eid entries) bins w) :
    (discipline ns b .publisher).Safe
      (fun result w => Aware ns b .publisher (Progress ns b (eid + 1) entries) bins w ∧
        result = .ok (toIndex (eid + 1)))
      (do
        updateMembers fun m => { m with lastEid := m.lastEid + 1 }
        return (.ok (toIndex (← readMembers).lastEid) : Except Failure String)) w := by
  have hF : Framed ns b .publisher (Progress ns b (eid + 1) entries) := framed_progress _ _
  refine (safe_step (A := fun _ => True) (framed_counting _ _) hF rfl (fun s hs => ?_) hw).bind ?_
  · refine ⟨⟨rfl, rfl, id⟩, ⟨⟨?_, hs.entries⟩, Or.inl (Nat.succ_ne_zero _)⟩, trivial⟩
    exact congrArg (· + 1) hs.lastEid
  · rintro - w ⟨hw, -⟩
    refine (safe_readCounter hw).bind ?_
    rintro m w ⟨hw, hm⟩
    exact Discipline.safe_pure (hF.stable_aware_and bins _) ⟨hw, by rw [hm]⟩

theorem safe_getEventID {eid : ℕ} {entries : List String}
    (hw : Aware sub.dbNamespace b .publisher (Progress sub.dbNamespace b eid entries) bins w) :
    (discipline sub.dbNamespace b .publisher).Safe
      (fun result w => Aware sub.dbNamespace b .publisher
        (Progress sub.dbNamespace b (eid + 1) entries) bins w ∧ result = .ok (toIndex (eid + 1)))
      (getEventID sub) w := by
  rw [getEventID]
  refine (safe_restoreEid hw).bind ?_
  rintro result w ⟨hw, rfl⟩
  dsimp only
  refine (safe_readCounter hw).bind ?_
  rintro m w ⟨hw, hm⟩
  have hcounting : Aware sub.dbNamespace b .publisher
      (Counting sub.dbNamespace b eid entries) bins w := ⟨hw.sound, hw.frame.toCounting, hw.knows⟩
  split
  · exact (safe_storeCounter _ hcounting).bind fun _ w hw => safe_nextEid hw
  · exact safe_nextEid hcounting

/-- The rows get the ids that follow the last one. -/
theorem safe_prepareRows (p : Process) (event_time : EventTime) (rows : List Row) {eid : ℕ}
    {entries : List String}
    (hw : Aware sub.dbNamespace b .publisher (Progress sub.dbNamespace b eid entries) bins w) :
    (discipline sub.dbNamespace b .publisher).Safe
      (fun result w => Aware sub.dbNamespace b .publisher
          (Progress sub.dbNamespace b (eid + rows.length) entries) bins w ∧
        ∃ prepared, result = .ok prepared ∧
          prepared.map Prod.fst = (List.range' (eid + 1) rows.length).map toIndex)
      (prepareRows p sub event_time rows) w := by
  induction rows generalizing w eid with
  | nil =>
      exact Discipline.safe_pure ((framed_progress _ _).stable_aware_and bins _) ⟨hw, [], rfl, rfl⟩
  | cons row rest ih =>
      rw [prepareRows]
      refine (safe_getEventID hw).bind ?_
      rintro result w ⟨hw, rfl⟩
      dsimp only
      refine (ih hw).bind ?_
      rintro result w ⟨hw, prepared, rfl, hids⟩
      rw [Nat.add_assoc, Nat.add_comm 1] at hw
      refine Discipline.safe_pure ((framed_progress _ _).stable_aware_and bins _) ⟨hw, _, rfl, ?_⟩
      rw [List.map_cons, hids]
      rfl

end Steps

/-! ### Eviction -/

section Eviction

variable {F : State → Prop} {w : Shared}

theorem only_deleteOverflow {o : Overflow} {keys : List String} (h : o.Within keys)
    (hkeys : ∀ key ∈ keys, IsData key) : (deleteOverflow o).Only (Quiet ns b) := by
  rw [deleteOverflow]
  split
  · rename_i hmin
    have hlow : IsData o.minKey := hkeys _ (h.1.resolve_left hmin)
    split
    · exact Prog.only_bind (only_deleteEvents (QuietKey.data hlow)) fun _ => Prog.only_pure _
    · refine Prog.only_bind (only_deleteRange fun key hle hge => ?_) fun _ => Prog.only_pure _
      rcases h.2 with hmax | hmax
      · have hkey := eq_empty_of_le (hmax ▸ hge)
        exact absurd (eq_empty_of_le (hkey ▸ hle)) hmin
      · exact QuietKey.data (isPrefix_of_between hlow (hkeys _ hmax) hle hge)
  · exact Prog.only_pure _

variable (hbin : ∃ r : Record, r.bin = b) (hF : Framed sub.dbNamespace b .publisher F)

include hbin hF

theorem safe_expireBefore (p : Process) (content : String)
    (hw : Aware sub.dbNamespace b .publisher F [toText b] w) :
    (discipline sub.dbNamespace b .publisher).Safe
      (fun _ => Aware sub.dbNamespace b .publisher F [toText b]) (expireBefore p sub content) w := by
  have hstable := hF.stable_aware [toText b]
  rw [expireBefore]
  split
  · exact Discipline.safe_pure hstable hw
  · split
    · exact Discipline.safe_pure hstable hw
    · refine (safe_quiet hF (only_updateMembers fun m => ?_) hw).bind fun _ w hw => ?_
      · split
        · exact ⟨rfl, fun _ => wholeMinute_sub _⟩
        · exact ⟨rfl, id⟩
      · refine (safe_quiet hF only_readMembers hw).bind fun m w hw => ?_
        refine (safe_getIndexes hbin p hF _ _ false hw).bind fun _ w hw => ?_
        exact Discipline.safe_pure hstable hw

theorem safe_evictOverflow (p : Process) {keys : List String} (hkeys : ∀ key ∈ keys, IsData key)
    (hw : Aware sub.dbNamespace b .publisher F [toText b] w) :
    (discipline sub.dbNamespace b .publisher).Safe
      (fun _ => Aware sub.dbNamespace b .publisher F [toText b]) (evictOverflow p sub keys) w := by
  have hwithin : ∀ threshold, (keys.foldl (Overflow.visit threshold) {}).Within keys :=
    fun threshold => Overflow.within_foldl threshold keys ⟨Or.inl rfl, Or.inl rfl⟩ fun _ h => h
  rw [evictOverflow]
  refine (safe_quiet hF (only_readEvents (eidKey_not_index _).symm) hw).bind fun last_key w hw => ?_
  split
  · exact Discipline.safe_pure (hF.stable_aware _) hw
  · refine (safe_quiet hF (only_deleteOverflow (hwithin _) hkeys) hw).bind fun _ w hw => ?_
    refine (safe_quiet hF (only_readEvents ?_) hw).bind fun content w hw => ?_
    · exact (quietKey_data (b := b) _ _).index
    · exact safe_expireBefore hbin hF p content hw

/-- A check for overflow keeps the bin. -/
theorem safe_expireCheck (p : Process) (hw : Aware sub.dbNamespace b .publisher F [toText b] w) :
    (discipline sub.dbNamespace b .publisher).Safe
      (fun _ => Aware sub.dbNamespace b .publisher F [toText b]) (expireCheck p sub) w := by
  rw [expireCheck]
  refine (safe_step (A := fun keys => ∀ key ∈ keys.toOption.getD [], IsData key) hF hF rfl
    (fun s hs => ?_) hw).bind ?_
  · exact ⟨⟨rfl, rfl, id⟩, hs, fun key hkey => isData_of_mem_scan hkey⟩
  · rintro keys w ⟨hw, hkeys⟩
    dsimp only
    split
    · exact Discipline.safe_pure (hF.stable_aware _) hw
    · exact safe_evictOverflow hbin hF p hkeys hw

theorem safe_checkpoint (p : Process) (hw : Aware sub.dbNamespace b .publisher F [toText b] w) :
    (discipline sub.dbNamespace b .publisher).Safe
      (fun _ => Aware sub.dbNamespace b .publisher F [toText b]) (checkpoint p sub) w := by
  rw [checkpoint]
  refine (safe_quiet hF only_readMembers hw).bind fun m w hw => ?_
  split
  · exact safe_expireCheck hbin hF p hw
  · exact Discipline.safe_pure (hF.stable_aware _) hw

end Eviction

/-! ### Recording -/

section Recording

variable {F : State → Prop} {w : Shared}

/-- Entries are appended to a record list that is not empty. -/
theorem appendRecords_of_ne (index_key list_id : String) (time : EventTime) (eids : List ℕ)
    {record_value : String} (hne : record_value ≠ "") (data : List (String × String)) :
    ∃ value, appendRecords index_key list_id (toText time.toNat) (eids.map toIndex) record_value
        data = pure (value, data) ∧
      pieces value "," = pieces record_value "," ++ (recordsAt time eids).map Record.text ∧
      value ≠ "" := by
  induction eids generalizing record_value with
  | nil => exact ⟨record_value, rfl, (List.append_nil _).symm, hne⟩
  | cons eid rest ih =>
      have htext : record_value ++ "," ++ toIndex eid ++ ":" ++ toText time.toNat =
          if record_value = "" then (⟨eid, time⟩ : Record).text
          else record_value ++ "," ++ (⟨eid, time⟩ : Record).text := by
        rw [if_neg hne, Record.text]
        simp only [String.append_assoc]
      have hpieces : pieces (record_value ++ "," ++ toIndex eid ++ ":" ++ toText time.toNat) "," =
          pieces record_value "," ++ [(⟨eid, time⟩ : Record).text] := by
        rw [htext]
        exact pieces_concat rfl (Record.text_ne_empty _) fun hc => (Record.text_chars hc).1 rfl
      have hnext : record_value ++ "," ++ toIndex eid ++ ":" ++ toText time.toNat ≠ "" := by
        intro h
        have hl := congrArg String.toList h
        simp at hl
      obtain ⟨value, heq, hvalue, hne'⟩ := ih hnext
      refine ⟨value, ?_, ?_, hne'⟩
      · rw [List.map_cons, appendRecords, if_neg hne]
        exact heq
      · rw [hvalue, hpieces]
        simp [recordsAt]

/-- What a batch will commit: the record list of its bin with the new entries
and, if the list was empty, the index with the bin. -/
structure Commit (ns : String) (bin : ℕ) (entries : List String) (record_value : String)
    (bins : List String) (r : String × List (String × String)) : Prop where
  value : pieces r.1 "," = pieces record_value "," ++ entries
  nonempty : r.1 ≠ ""
  index : (record_value ≠ "" ∧ r.2 = []) ∨ (record_value = "" ∧ ∃ index_value,
    r.2 = [(indexKey ns, index_value)] ∧ pieces index_value "," = bins ++ [toText bin])

theorem safe_appendRecords (hF : Framed ns b .publisher F) (time : EventTime) {eids : List ℕ}
    (hne : eids ≠ []) (record_value : String) (hw : Aware ns b .publisher F [toText b] w) :
    (discipline ns b .publisher).Safe
      (fun r w => ∃ bins, Aware ns b .publisher F bins w ∧ Commit ns (time.toNat / 60)
        ((recordsAt time eids).map Record.text) record_value bins r)
      (appendRecords (indexKey ns) (toText (time.toNat / 60)) (toText time.toNat)
        (eids.map toIndex) record_value []) w := by
  have hstable : ∀ r, (discipline ns b .publisher).Stable fun w => ∃ bins,
      Aware ns b .publisher F bins w ∧ Commit ns (time.toNat / 60)
        ((recordsAt time eids).map Record.text) record_value bins r := by
    rintro r w w' hr ⟨bins, hw, hcommit⟩
    exact ⟨bins, hF.stable_aware bins w w' hr hw, hcommit⟩
  by_cases hrecord : record_value = ""
  · subst hrecord
    obtain ⟨eid, rest, rfl⟩ := List.exists_cons_of_ne_nil hne
    rw [List.map_cons, appendRecords, if_pos rfl]
    refine (safe_readIndex hF hw).bind fun content w hw => ?_
    have hentry : toIndex eid ++ ":" ++ toText time.toNat ≠ "" :=
      Record.text_ne_empty ⟨eid, time⟩
    obtain ⟨value, heq, hvalue, hvalue'⟩ := appendRecords_of_ne (indexKey ns)
      (toText (time.toNat / 60)) time rest hentry
      [(indexKey ns, if content = "" then toText (time.toNat / 60)
        else content ++ "," ++ toText (time.toNat / 60))]
    dsimp only
    rw [List.nil_append, heq]
    refine Discipline.safe_pure (hstable _) ⟨_, hw, ?_, hvalue', Or.inr ⟨rfl, _, rfl, ?_⟩⟩
    · rw [hvalue, pieces_empty, pieces, if_neg hentry, splitAnyOf_eq_singleton]
      · rfl
      · intro c hc hmem
        have hchar := (Record.text_chars (r := ⟨eid, time⟩) hmem).1
        simp at hc
        exact hchar hc
    · exact pieces_concat rfl (toText_ne_empty _) fun hc => (toText_chars hc).1 rfl
  · obtain ⟨value, heq, hvalue, hvalue'⟩ := appendRecords_of_ne (indexKey ns)
      (toText (time.toNat / 60)) time eids hrecord []
    rw [heq]
    exact Discipline.safe_pure (hstable _) ⟨_, hw, hvalue, hvalue', Or.inl ⟨hrecord, rfl⟩⟩

theorem valueAt_putBatch_concat (db : Database) (data : List (String × String))
    (key value key' : String) :
    valueAt (Ephemeral.putBatch db kEvents (data ++ [(key, value)])) key' =
      if key = key' then value else valueAt (Ephemeral.putBatch db kEvents data) key' := by
  rw [Ephemeral.putBatch, List.foldl_append]
  exact valueAt_setValue _ key value key'

/-- The values that a commit leaves. -/
structure Committed (ns : String) (b bin : ℕ) (bins : List String) (record_value value : String)
    (db db' : Database) : Prop where
  text : valueAt db' (recordKey ns (toText b)) =
    if bin = b then value else valueAt db (recordKey ns (toText b))
  eid : valueAt db' (eidKey ns) = valueAt db (eidKey ns)
  index : (record_value ≠ "" ∧ valueAt db' (indexKey ns) = valueAt db (indexKey ns)) ∨
    (record_value = "" ∧ indexedBins ns db' = bins ++ [toText bin])

theorem Commit.committed {bin : ℕ} {entries bins : List String} {record_value : String}
    {r : String × List (String × String)} (h : Commit ns bin entries record_value bins r)
    (db : Database) :
    Committed ns b bin bins record_value r.1 db
      (Ephemeral.putBatch db kEvents (r.2 ++ [(recordKey ns (toText bin), r.1)])) := by
  have hrecord : ∀ n : ℕ, recordKey ns (toText bin) = recordKey ns (toText n) ↔ bin = n :=
    fun n => recordKey_inj.trans toText_inj
  have hindex := indexKey_ne_recordKey ns (toText bin)
  rcases h.index with ⟨hne, hdata⟩ | ⟨hempty, index_value, hdata, hpieces⟩
  · rw [hdata]
    refine ⟨?_, ?_, Or.inl ⟨hne, ?_⟩⟩
    · simp only [valueAt_putBatch_concat, hrecord]
      rfl
    · rw [valueAt_putBatch_concat, if_neg (eidKey_not_record ns _)]
      rfl
    · rw [valueAt_putBatch_concat, if_neg hindex]
      rfl
  · rw [hdata]
    refine ⟨?_, ?_, Or.inr ⟨hempty, ?_⟩⟩
    · simp only [valueAt_putBatch_concat, hrecord, putBatch_cons, putBatch_nil, valueAt_setValue,
        if_neg (indexKey_ne_recordKey ns (toText b)).symm]
    · rw [valueAt_putBatch_concat, if_neg (eidKey_not_record ns _), putBatch_cons, putBatch_nil,
        valueAt_setValue, if_neg (eidKey_not_index ns)]
    · rw [indexedBins, valueAt_putBatch_concat, if_neg hindex, putBatch_cons, putBatch_nil,
        valueAt_setValue, if_pos rfl]
      exact hpieces

/-- A bin is added exactly when its record list was empty. -/
theorem Commit.addsBin_eq {bin : ℕ} {entries bins : List String} {record_value : String}
    {r : String × List (String × String)} (h : Commit ns bin entries record_value bins r) :
    addsBin ns _ (.database (.putBatch kEvents (r.2 ++ [(recordKey ns (toText bin), r.1)]))) =
      decide (record_value = "") := by
  have hrecord : ("records." ++ ns ++ ".60.").toList.isPrefixOf
      (recordKey ns (toText bin)).toList = true := by
    rw [List.isPrefixOf_iff_prefix, recordKey]
    exact ⟨(toText bin).toList, String.toList_append.symm⟩
  have hindex : decide (recordKey ns (toText bin) = indexKey ns) = false :=
    decide_eq_false (indexKey_ne_recordKey ns _)
  rcases h.index with ⟨hne, hdata⟩ | ⟨hempty, index_value, hdata, -⟩
  · rw [hdata, List.nil_append, addsBin, writesIndex, List.any_cons, hindex, List.any_nil,
      decide_eq_false hne]
    rfl
  · rw [hdata, addsBin, writesIndex, List.any_append, List.any_append, List.any_cons, List.any_cons,
      List.any_cons, List.any_cons, hrecord, decide_eq_true hempty]
    simp

/-- A commit keeps the bin in the index if it has records. -/
theorem Committed.sound {bin : ℕ} {bins : List String} {record_value value : String}
    {s : State} {db' : Database} (h : Committed ns b bin bins record_value value s.db db')
    (hs : Sound ns b s) (hread : HasRead ns b bin record_value s)
    (hknown : valueAt s.db (recordKey ns (toText b)) ≠ "" → toText b ∈ bins) :
    Sound ns b ⟨db', s.members⟩ := by
  refine ⟨fun htext => ?_, hs.wholeMinute⟩
  rw [h.text] at htext
  rcases h.index with ⟨hne, hindex⟩ | ⟨-, hindex⟩
  · rw [indexedBins, hindex]
    apply hs.listed
    by_cases hb : bin = b
    · rw [hread hb]
      exact hne
    · rwa [if_neg hb] at htext
  · rw [hindex, List.mem_append, List.mem_singleton]
    by_cases hb : bin = b
    · exact Or.inr (congrArg toText hb.symm)
    · rw [if_neg hb] at htext
      exact Or.inl (hknown htext)

/-- What was recorded stays, and the new entries are recorded. -/
theorem Committed.progress {bin eid : ℕ} {bins entries new : List String}
    {record_value value : String} {s : State} {db' : Database}
    (h : Committed ns b bin bins record_value value s.db db')
    (hvalue : pieces value "," = pieces record_value "," ++ new)
    (hs : Progress ns b eid entries s) (hread : HasRead ns b bin record_value s) :
    Progress ns b eid (entries ++ if bin = b then new else []) ⟨db', s.members⟩ := by
  refine ⟨⟨hs.lastEid, ?_⟩, ?_⟩
  · intro entry hentry
    rw [List.mem_append] at hentry
    rw [recordEntries, h.text]
    by_cases hb : bin = b
    · rw [if_pos hb] at hentry ⊢
      change entry ∈ pieces value ","
      rw [hvalue, List.mem_append]
      refine hentry.imp_left fun hold => ?_
      have hkept := hs.entries entry hold
      rw [recordEntries, hread hb] at hkept
      exact hkept
    · rw [if_neg hb] at hentry ⊢
      exact hs.entries entry (hentry.resolve_right List.not_mem_nil)
  · rw [Ready, h.eid]
    exact hs.ready

theorem safe_commit {bin eid : ℕ} {bins entries new : List String} {record_value : String}
    {r : String × List (String × String)} (hcommit : Commit ns bin new record_value bins r)
    (hw : Aware ns b .publisher
      (fun s => Progress ns b eid entries s ∧ HasRead ns b bin record_value s) bins w) :
    (discipline ns b .publisher).Safe
      (fun result w => Aware ns b .publisher
        (Progress ns b eid (entries ++ if bin = b then new else [])) [toText b] w ∧ result = .ok ())
      (setDatabaseBatch kEvents (r.2 ++ [(recordKey ns (toText bin), r.1)]) : Prog Access _) w := by
  have hF : Framed ns b .publisher fun s => Progress ns b eid entries s ∧
      HasRead ns b bin record_value s := framed_hasRead (framed_progress _ _) _ _
  refine Discipline.safe_perform (fun _ => (framed_progress _ _).stable_aware_and _ _) ?_
  rintro w' hr -
  have hw' := hF.stable_aware bins w w' hr hw
  have hknown := hw'.knows fun h => absurd h publisher_ne_query
  have hdone := hcommit.committed (b := b) w'.state.db
  have hsound := hdone.sound hw'.sound hw'.frame.2 hknown
  refine ⟨⟨fun _ => hsound, fun hup => ?_, fun hup htext => ?_⟩,
    aware_of_sound hsound (hdone.progress hcommit.value hw'.frame.1 hw'.frame.2), rfl⟩
  · exact (Bool.or_eq_false_iff.mp hup).1
  · have hadds := (Bool.or_eq_false_iff.mp hup).2
    have hne : record_value ≠ "" := of_decide_eq_false (hcommit.addsBin_eq.symm.trans hadds)
    by_cases hb : bin = b
    · rw [hw'.frame.2 hb]
      exact hne
    · exact (hdone.text.trans (if_neg hb)) ▸ htext

/-- The entries of a batch that are of the bin. -/
def newEntries (b : ℕ) (time : EventTime) (eids : List ℕ) : List String :=
  if time.toNat / 60 = b then (recordsAt time eids).map Record.text else []

theorem safe_readRecords {F : State → Prop} (hF : Framed ns b .publisher F) (bin : ℕ)
    (hw : Aware ns b .publisher F [toText b] w) :
    (discipline ns b .publisher).Safe
      (fun record_value => Aware ns b .publisher
        (fun s => F s ∧ HasRead ns b bin record_value s) [toText b])
      (readValue kEvents (recordKey ns (toText bin)) : Prog Access String) w := by
  apply Discipline.Safe.map
  refine Discipline.safe_perform (fun _ => (framed_hasRead hF _ _).stable_aware _) ?_
  rintro w' hr -
  have hw' := hF.stable_aware [toText b] w w' hr hw
  refine ⟨⟨id, fun hup => (Bool.or_false _).symm.trans hup, fun _ => id⟩,
    aware_of_sound hw'.sound ⟨hw'.frame, ?_⟩⟩
  rintro rfl
  exact (congrArg (Option.getD · "") (toOption_get _ _ _)).symm

/-- Recording appends to the record list and keeps it in the index. -/
theorem safe_recordEvents (time : EventTime) {eids : List ℕ} (hne : eids ≠ []) {eid : ℕ}
    {entries : List String}
    (hw : Aware sub.dbNamespace b .publisher (Progress sub.dbNamespace b eid entries) [toText b] w) :
    (discipline sub.dbNamespace b .publisher).Safe
      (fun result => Aware sub.dbNamespace b .publisher (Progress sub.dbNamespace b eid
        (entries ++ ifAdded result (newEntries b time eids))) [toText b])
      (recordEvents sub (eids.map toIndex) time) w := by
  have hdiv : (time / 60).toNat = time.toNat / 60 := UInt64.toNat_div time 60
  simp only [recordEvents, hdiv]
  refine (safe_readRecords (framed_progress _ _) (time.toNat / 60) hw).bind
    fun record_value w hw => ?_
  refine (safe_appendRecords (framed_hasRead (framed_progress _ _) _ _) time hne record_value
    hw).bind ?_
  rintro r w ⟨bins, hw, hcommit⟩
  refine (safe_commit hcommit hw).bind ?_
  rintro result w ⟨hw, rfl⟩
  exact Discipline.safe_pure ((framed_progress _ _).stable_aware _) hw

theorem safe_storeBatch (time : EventTime) {prepared : List (String × String)} {eids : List ℕ}
    (hids : prepared.map Prod.fst = eids.map toIndex) (hne : eids ≠ []) {eid : ℕ}
    {entries : List String}
    (hw : Aware sub.dbNamespace b .publisher (Progress sub.dbNamespace b eid entries) [toText b] w) :
    (discipline sub.dbNamespace b .publisher).Safe
      (fun result => Aware sub.dbNamespace b .publisher (Progress sub.dbNamespace b eid
        (entries ++ ifAdded result (newEntries b time eids))) [toText b])
      (storeBatch sub prepared time) w := by
  have hdata : (setDatabaseBatch kEvents (prepared.map fun d =>
      ("data." ++ sub.dbNamespace ++ "." ++ d.1, d.2)) : Prog Access _).Only
        (Quiet sub.dbNamespace b) := by
    refine Prog.only_perform ⟨rfl, ?_⟩
    intro d hd
    obtain ⟨e, -, rfl⟩ := List.mem_map.mp hd
    exact quietKey_data _ _
  rw [storeBatch, hids]
  refine (safe_quiet (framed_progress _ _) hdata hw).bind fun status w hw => ?_
  cases status with
  | error message =>
      refine Discipline.safe_pure ((framed_progress _ _).stable_aware _) ?_
      rw [ifAdded, List.append_nil]
      exact hw
  | ok _ => exact safe_recordEvents time hne hw

variable (hbin : ∃ r : Record, r.bin = b)

include hbin

/-- A batch takes its ids and, if it succeeds, its entries are recorded. -/
theorem safe_addBatch (p : Process) (c : BatchCall) {eid : ℕ} {entries : List String}
    (hw : Aware sub.dbNamespace b .publisher (Progress sub.dbNamespace b eid entries) [toText b] w) :
    (discipline sub.dbNamespace b .publisher).Safe
      (fun result => Aware sub.dbNamespace b .publisher
        (Progress sub.dbNamespace b (eid + c.row_list.length) (entries ++ ifAdded result
          (newEntries b (eventTime c.custom_event_time c.now)
            (List.range' (eid + 1) c.row_list.length)))) [toText b])
      (addBatch p sub c.row_list c.custom_event_time c.now) w := by
  have herror : ∀ {e : Failure} {new : List String} {w : Shared},
      Aware sub.dbNamespace b .publisher
        (Progress sub.dbNamespace b (eid + c.row_list.length) entries) [toText b] w →
      (discipline sub.dbNamespace b .publisher).Safe
        (fun result => Aware sub.dbNamespace b .publisher
          (Progress sub.dbNamespace b (eid + c.row_list.length) (entries ++ ifAdded result new))
            [toText b]) (pure (.error e)) w := by
    intro e new w hw
    refine Discipline.safe_pure ((framed_progress _ _).stable_aware _) ?_
    rw [ifAdded, List.append_nil]
    exact hw
  rw [addBatch]
  refine (safe_prepareRows p _ c.row_list hw).bind ?_
  rintro result w ⟨hw, prepared, rfl, hids⟩
  dsimp only
  split
  · exact herror hw
  · rename_i hne
    refine (safe_checkpoint hbin (framed_progress _ _) p hw).bind fun status w hw => ?_
    cases status with
    | error e => exact herror hw
    | ok _ =>
        refine safe_storeBatch _ hids ?_ hw
        intro hnil
        rw [hnil] at hids
        exact hne (List.map_eq_nil_iff.mp hids)

end Recording

end Osquery.EventSubscribers
