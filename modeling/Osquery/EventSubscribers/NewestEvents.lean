import Osquery.EventSubscribers.BinExpiry
import Osquery.EventSubscribers.Eviction

/-!
# What the overflow check keeps

The check deletes the rows whose ids are below a threshold, and then the bins
that end before the minute of the row at the threshold. The threshold is the
stored reservation minus the limit. The reservation may be up to nine above the
last id, so the threshold may be above the oldest of the newest events.
-/

namespace Osquery.EventSubscribers

open Foundation.AtomicProgram Foundation.JsonText Foundation.Numeral Foundation.Separated
open Foundation.Grouping Core.BackingStore Core.Conversions Core.Rows

variable {p : Process} {sub : Subscriber} {s : State} {log : EventLog}

/-! ### The keys below the threshold -/

/-- The data key of an id. -/
def idKey (ns : String) (eid : UInt64) : String := dataKey ns (toIndex eid.toNat)

theorem idKey_inj {ns : String} {i j : UInt64} : idKey ns i = idKey ns j ↔ i = j := by
  rw [idKey, idKey, dataKey_inj, toIndex_inj, UInt64.toNat_inj]

theorem afterLast_dataKey (ns : String) (i : ℕ) :
    afterLast (dataKey ns (toIndex i)) '.' = toIndex i := by
  have hdigits : ∀ c ∈ (toIndex i).toList.reverse, decide (c ≠ '.') = true := by
    intro c hc
    rw [List.mem_reverse] at hc
    have hd := isDigit_of_mem_padded hc
    rw [decide_eq_true_eq]
    rintro rfl
    exact absurd hd (by decide)
  rw [afterLast, dataKey, String.toList_append, String.toList_append, List.reverse_append,
    List.reverse_append, List.takeWhile_append_of_pos hdigits]
  simp

/-- The number that the check reads from a data key is its id. -/
theorem keyValue_idKey (ns : String) (i : UInt64) :
    tryToUnsigned (afterLast (idKey ns i) '.') 0 = i := by
  rw [idKey, afterLast_dataKey, tryToUnsigned, stoull_toIndex, if_pos i.toNat_lt]
  simp

/-- The bounds of the ids below a threshold among the visited keys. -/
def Overflow.Bounds (ns : String) (threshold : UInt64) (visited : List String) (o : Overflow) :
    Prop :=
  (∀ i, idKey ns i ∈ visited → threshold ≤ i) ∧ o = {} ∨
    ∃ a b, (idKey ns a ∈ visited ∧ a < threshold) ∧ (idKey ns b ∈ visited ∧ b < threshold) ∧
      (∀ i, idKey ns i ∈ visited → i < threshold → a ≤ i ∧ i ≤ b) ∧
      o = ⟨idKey ns a, idKey ns b, a, b⟩

theorem extend_empty {ns : String} {i : UInt64} (h : i ≠ 0) :
    ({} : Overflow).extend (idKey ns i) i = ⟨idKey ns i, idKey ns i, i, i⟩ := by
  have hpos : i > 0 := by grind
  simp [Overflow.extend, hpos]

theorem extend_bounds {ns : String} {a b i : UInt64} (h : a ≠ 0) :
    (⟨idKey ns a, idKey ns b, a, b⟩ : Overflow).extend (idKey ns i) i =
      ⟨idKey ns (min a i), idKey ns (max b i), min a i, max b i⟩ := by
  have hmin : min a i = if a ≤ i then a else i := rfl
  have hmax : max b i = if b ≤ i then i else b := rfl
  simp only [Overflow.extend, h, false_or, hmin, hmax, Overflow.mk.injEq]
  refine ⟨?_, ?_, ?_, ?_⟩ <;> grind

/-- Visiting one more key keeps the bounds. -/
theorem Overflow.Bounds.visit {ns : String} {threshold : UInt64} {visited : List String}
    {o : Overflow} (h : o.Bounds ns threshold visited) (hpos : ∀ i, idKey ns i ∈ visited → i ≠ 0)
    {i : UInt64} (hi : i ≠ 0) :
    (o.visit threshold (idKey ns i)).Bounds ns threshold (visited ++ [idKey ns i]) := by
  have hmem : ∀ j, idKey ns j ∈ visited ++ [idKey ns i] ↔ idKey ns j ∈ visited ∨ j = i := by
    intro j
    rw [List.mem_append, List.mem_singleton, idKey_inj]
  simp only [Overflow.visit, keyValue_idKey, Overflow.Bounds, hmem]
  split
  · rename_i hlt
    right
    rcases h with ⟨hnone, rfl⟩ | ⟨a, b, ha, hb, hbounds, rfl⟩
    · refine ⟨i, i, ⟨Or.inr rfl, hlt⟩, ⟨Or.inr rfl, hlt⟩, ?_, extend_empty hi⟩
      rintro j (hj | rfl) hjlt
      · exact absurd (hnone j hj) (by grind)
      · exact ⟨UInt64.le_refl j, UInt64.le_refl j⟩
    · have hmin : min a i = if a ≤ i then a else i := rfl
      have hmax : max b i = if b ≤ i then i else b := rfl
      refine ⟨min a i, max b i, ?_, ?_, ?_, extend_bounds (hpos a ha.1)⟩
      · rw [hmin]
        split
        · exact ⟨Or.inl ha.1, ha.2⟩
        · exact ⟨Or.inr rfl, hlt⟩
      · rw [hmax]
        split
        · exact ⟨Or.inr rfl, hlt⟩
        · exact ⟨Or.inl hb.1, hb.2⟩
      · rintro j (hj | rfl) hjlt
        · have hj' := hbounds j hj hjlt
          grind
        · grind
  · rename_i hge
    rcases h with ⟨hnone, rfl⟩ | ⟨a, b, ha, hb, hbounds, rfl⟩
    · left
      refine ⟨?_, rfl⟩
      rintro j (hj | rfl)
      · exact hnone j hj
      · grind
    · right
      refine ⟨a, b, ⟨Or.inl ha.1, ha.2⟩, ⟨Or.inl hb.1, hb.2⟩, ?_, rfl⟩
      rintro j (hj | rfl) hjlt
      · exact hbounds j hj hjlt
      · exact absurd hjlt hge

/-- The bounds of all visited keys, which are data keys of ids other than zero. -/
theorem bounds_foldl {ns : String} (threshold : UInt64) {keys : List String}
    (h : ∀ key ∈ keys, ∃ i, i ≠ 0 ∧ key = idKey ns i) :
    (keys.foldl (Overflow.visit threshold) {}).Bounds ns threshold keys := by
  induction keys using List.reverseRecOn with
  | nil => exact Or.inl ⟨fun i hi => absurd hi List.not_mem_nil, rfl⟩
  | append_singleton rest key ih =>
      obtain ⟨i, hi, rfl⟩ := h key (List.mem_append_right _ (List.mem_singleton.mpr rfl))
      have hrest := fun k hk => h k (List.mem_append_left _ hk)
      rw [List.foldl_append]
      apply (ih hrest).visit _ hi
      intro j hj
      obtain ⟨k, hk, hjk⟩ := hrest _ hj
      exact idKey_inj.mp hjk ▸ hk

/-! ### A buffer of contiguous events -/

/-- The store holds the `n` events with the ids up to `last`, of which `c` are reserved. -/
structure Buffer (sub : Subscriber) (s : State) (log : EventLog) (n last c : ℕ) : Prop where
  represents : Represents sub.dbNamespace s.db log
  wholeMinute : WholeMinute s.members
  buffered : ∀ key, key ∈ bufferedKeys sub s.db ↔
    ∃ i, last < i + n ∧ i ≤ last ∧ key = dataKey sub.dbNamespace (toIndex i)
  positive : n ≤ last
  reservation : StoredReservation sub.dbNamespace s.db c
  reserved : last ≤ c ∧ c ≤ last + 9
  fits : c < 2 ^ 64

/-- The ids that a limit leaves room for. -/
def Newest (sub : Subscriber) (last i : ℕ) : Prop := last < i + sub.eventsMax.toNat ∧ i ≤ last

/-- What the check is for: it leaves a buffer within the limit alone, and keeps the newest
events of a larger one, without wrapping around in the threshold. -/
structure KeepsNewest (sub : Subscriber) (s s' : State) (n last c : ℕ) : Prop where
  unchanged : n ≤ sub.eventsMax.toNat → s' = s
  newest : sub.eventsMax.toNat < n → ∀ i, Newest sub last i →
    lookup s'.db kEvents (dataKey sub.dbNamespace (toIndex i)) =
      lookup s.db kEvents (dataKey sub.dbNamespace (toIndex i))
  threshold : sub.eventsMax.toNat < n →
    (UInt64.ofNat c - sub.eventsMax).toNat + sub.eventsMax.toNat = c

/-- The keys in the range from the first event to the last one below the threshold. -/
def Overrun (ns : String) (first upper : ℕ) (key : String) : Prop :=
  first ≤ upper ∧ dataKey ns (toIndex first) ≤ key ∧ key ≤ dataKey ns (toIndex upper)

theorem idKey_ofNat (ns : String) {i : ℕ} (h : i < 2 ^ 64) :
    idKey ns (UInt64.ofNat i) = dataKey ns (toIndex i) := by
  rw [idKey, UInt64.toNat_ofNat', Nat.mod_eq_of_lt h]

theorem idKey_ne_empty (ns : String) (i : UInt64) : idKey ns i ≠ "" := by
  intro h
  have hl := congrArg String.toList h
  simp [idKey, dataKey] at hl

/-- Deleting an overflow removes the range between its bounds. -/
theorem removes_deleteOverflow (ns : String) (a b : UInt64) (s : State) :
    ∃ db', (deleteOverflow ⟨idKey ns a, idKey ns b, a, b⟩).run s = ((), { s with db := db' }) ∧
      Removes (fun key => idKey ns a ≤ key ∧ key ≤ idKey ns b) s.db db' := by
  rw [deleteOverflow, if_pos (idKey_ne_empty ns a)]
  by_cases hab : b = a
  · subst hab
    rw [if_pos rfl]
    refine ⟨_, rfl, (removes_remove s.db (idKey ns b)).congr fun key => ?_⟩
    exact ⟨fun h => h ▸ ⟨le_rfl, le_rfl⟩, fun h => le_antisymm h.2 h.1⟩
  · rw [if_neg hab]
    exact ⟨_, rfl, removes_removeRange s.db _ _⟩

section Buffer

variable {n last c : ℕ}

theorem Buffer.length_eq (h : Buffer sub s log n last c) : (bufferedKeys sub s.db).length = n := by
  have hpos := h.positive
  have hnodup : ((List.range' (last + 1 - n) n).map fun i =>
      dataKey sub.dbNamespace (toIndex i)).Nodup :=
    List.Nodup.map (fun i j hij => toIndex_inj.mp (dataKey_inj.mp hij)) List.nodup_range'
  rw [length_bufferedKeys hnodup, List.length_map, List.length_range']
  intro key
  rw [h.buffered, List.mem_map]
  simp only [List.mem_range'_1]
  constructor
  · rintro ⟨i, hlow, hhigh, rfl⟩
    exact ⟨i, ⟨by omega, by omega⟩, rfl⟩
  · rintro ⟨i, ⟨hlow, hhigh⟩, rfl⟩
    exact ⟨i, by omega, by omega, rfl⟩

theorem Buffer.lexicalCast_eid (h : Buffer sub s log n last c) (hn : 0 < n) :
    lexicalCast (valueAt s.db ("eid." ++ sub.dbNamespace)) = some (UInt64.ofNat c) := by
  have hpos := h.positive
  have hres := h.reserved
  rcases h.reservation.value with ⟨-, rfl⟩ | hvalue
  · omega
  · rw [show valueAt s.db ("eid." ++ sub.dbNamespace) = toIndex c from hvalue, lexicalCast_toIndex,
      if_pos h.fits]

/-- The threshold does not wrap around. -/
theorem Buffer.toNat_threshold (h : Buffer sub s log n last c) (hover : sub.eventsMax.toNat < n) :
    (UInt64.ofNat c - sub.eventsMax).toNat = c - sub.eventsMax.toNat := by
  have hpos := h.positive
  have hres := h.reserved
  have hc : (UInt64.ofNat c).toNat = c := by
    rw [UInt64.toNat_ofNat', Nat.mod_eq_of_lt h.fits]
  rw [UInt64.toNat_sub_of_le, hc]
  rw [UInt64.le_iff_toNat_le, hc]
  omega

theorem Buffer.idKey_mem_iff (h : Buffer sub s log n last c) {i : UInt64} :
    idKey sub.dbNamespace i ∈ bufferedKeys sub s.db ↔ last < i.toNat + n ∧ i.toNat ≤ last := by
  rw [h.buffered]
  constructor
  · rintro ⟨j, hlow, hhigh, hj⟩
    rw [idKey, dataKey_inj, toIndex_inj] at hj
    subst hj
    exact ⟨hlow, hhigh⟩
  · exact fun hi => ⟨i.toNat, hi.1, hi.2, rfl⟩

/-- The keys of the buffer are those of ids, and none of them is zero. -/
theorem Buffer.exists_idKey (h : Buffer sub s log n last c) :
    ∀ key ∈ bufferedKeys sub s.db, ∃ i, i ≠ 0 ∧ key = idKey sub.dbNamespace i := by
  have hpos := h.positive
  have hres := h.reserved
  have hfits := h.fits
  intro key hkey
  obtain ⟨i, hlow, hhigh, rfl⟩ := (h.buffered key).mp hkey
  refine ⟨UInt64.ofNat i, ?_, (idKey_ofNat _ (by omega)).symm⟩
  intro hzero
  have hi := congrArg UInt64.toNat hzero
  rw [UInt64.toNat_ofNat', Nat.mod_eq_of_lt (by omega)] at hi
  simp only [UInt64.toNat_zero] at hi
  omega

/-- The first part of the check removes the range below the threshold. -/
theorem Buffer.run_deleteOverflow (h : Buffer sub s log n last c)
    (hover : sub.eventsMax.toNat < n) :
    ∃ db', (deleteOverflow ((bufferedKeys sub s.db).foldl
        (Overflow.visit (UInt64.ofNat c - sub.eventsMax)) {})).run s = ((), { s with db := db' }) ∧
      Removes (Overrun sub.dbNamespace (last + 1 - n) (min (c - sub.eventsMax.toNat - 1) last))
        s.db db' := by
  have hpos := h.positive
  have hres := h.reserved
  have hfits := h.fits
  have hthreshold := h.toNat_threshold hover
  have hnat : ∀ i ≤ last, (UInt64.ofNat i).toNat = i := fun i hi => by
    rw [UInt64.toNat_ofNat', Nat.mod_eq_of_lt (by omega)]
  have hkeys := h.exists_idKey
  rcases bounds_foldl (UInt64.ofNat c - sub.eventsMax) hkeys with ⟨hnone, ho⟩ | hsome
  · have hfirst := hnone (UInt64.ofNat (last + 1 - n)) (h.idKey_mem_iff.mpr (by
      rw [hnat _ (by omega)]
      omega))
    rw [UInt64.le_iff_toNat_le, hthreshold, hnat _ (by omega)] at hfirst
    rw [ho]
    refine ⟨s.db, rfl, (Removes.refl s.db).congr fun key => ?_⟩
    rw [false_iff]
    rintro ⟨hle, -⟩
    omega
  · obtain ⟨a, b, ⟨ha, halt⟩, ⟨hb, hblt⟩, hbounds, ho⟩ := hsome
    rw [h.idKey_mem_iff] at ha hb
    rw [UInt64.lt_iff_toNat_lt, hthreshold] at halt hblt
    have hwithin : ∀ i ≤ last, last < i + n → i < c - sub.eventsMax.toNat →
        a.toNat ≤ i ∧ i ≤ b.toNat := by
      intro i hhigh hlow hlt
      have hi := hbounds (UInt64.ofNat i) (h.idKey_mem_iff.mpr (by rw [hnat i hhigh]; omega)) (by
        rw [UInt64.lt_iff_toNat_lt, hthreshold, hnat i hhigh]
        exact hlt)
      rwa [UInt64.le_iff_toNat_le, UInt64.le_iff_toNat_le, hnat i hhigh] at hi
    have hlow := hwithin (last + 1 - n) (by omega) (by omega) (by omega)
    have hhigh := hwithin (min (c - sub.eventsMax.toNat - 1) last) (by omega) (by omega) (by omega)
    have hfirst : a.toNat = last + 1 - n := by omega
    have hupper : b.toNat = min (c - sub.eventsMax.toNat - 1) last := by omega
    obtain ⟨db', hrun, hrem⟩ := removes_deleteOverflow sub.dbNamespace a b s
    rw [ho]
    refine ⟨db', hrun, hrem.congr fun key => ?_⟩
    rw [Overrun, idKey, idKey, hfirst, hupper]
    exact ⟨fun hk => ⟨by omega, hk⟩, fun hk => hk.2⟩

end Buffer

/-! ### The bins before the threshold -/

/-- The members after the row at the threshold has been read: its minute, unless it is zero,
is the expire time. A row without a readable time ends the check. -/
def boundary (p : Process) (m : Members) (content : String) : Option Members :=
  (storedTime p content).bind fun time => (lexicalCast time).map fun last_time =>
    if last_time > 0 then m.expireAt (last_time - last_time % 60) else m

theorem wholeMinute_boundary {m m' : Members} {content : String} (h60 : WholeMinute m)
    (h : boundary p m content = some m') : WholeMinute m' := by
  rw [boundary, Option.bind_eq_some_iff] at h
  obtain ⟨time, -, htime⟩ := h
  rw [Option.map_eq_some_iff] at htime
  obtain ⟨last_time, -, rfl⟩ := htime
  split
  · exact wholeMinute_sub last_time
  · exact h60

/-- The second part of the check stops, or expires the bins before its new expire time. -/
theorem run_expireBefore (p : Process) (h : Represents sub.dbNamespace s.db log)
    (h60 : WholeMinute s.members) (content : String) :
    match boundary p s.members content with
    | none => ((expireBefore p sub content).run s).2 = s
    | some m => Expired sub.dbNamespace m log s.db ((expireBefore p sub content).run s).2.db := by
  cases hbound : boundary p s.members content with
  | none =>
      unfold expireBefore
      rw [boundary, Option.bind_eq_none_iff] at hbound
      cases htime : storedTime p content with
      | none => rfl
      | some time =>
          have hcast := Option.map_eq_none_iff.mp (hbound time htime)
          simp only [hcast]
          rfl
  | some m =>
      have h60' := wholeMinute_boundary h60 hbound
      rw [boundary, Option.bind_eq_some_iff] at hbound
      obtain ⟨time, htime, hcast⟩ := hbound
      obtain ⟨last_time, hlast, hm⟩ := Option.map_eq_some_iff.mp hcast
      obtain ⟨db', hrun, hexp⟩ := run_getIndexes (s := ⟨s.db, m⟩) p h h60' m.expireTime 0 false
      have hbefore : (expireBefore p sub content).run s = (.ok (), ⟨db', m⟩) := by
        rw [expireBefore, htime]
        simp only [hlast, Prog.run_bind, run_updateMembers, hm, run_readMembers, hrun]
        rfl
      rw [hbefore]
      exact hexp

/-! ### When the newest events stay -/

instance (ns : String) (first upper : ℕ) (key : String) : Decidable (Overrun ns first upper key) :=
  inferInstanceAs (Decidable (_ ∧ _))

/-- The row at the threshold, as it is read once the range below it is gone. -/
def boundaryRow (sub : Subscriber) (s : State) (n last c : ℕ) : String :=
  if Overrun sub.dbNamespace (last + 1 - n) (min (c - sub.eventsMax.toNat - 1) last)
      (dataKey sub.dbNamespace (toIndex (c - sub.eventsMax.toNat))) then ""
  else valueAt s.db (dataKey sub.dbNamespace (toIndex (c - sub.eventsMax.toNat)))

/-- None of the newest events lies in the range below the threshold, nor in the range of
ids of a bin that ends before the minute of the event at the threshold. -/
structure SparesNewest (p : Process) (sub : Subscriber) (s : State) (log : EventLog)
    (n last c : ℕ) : Prop where
  below : ∀ i, Newest sub last i →
    ¬Overrun sub.dbNamespace (last + 1 - n) (min (c - sub.eventsMax.toNat - 1) last)
      (dataKey sub.dbNamespace (toIndex i))
  earlier : ∀ m, boundary p s.members (boundaryRow sub s n last c) = some m →
    ∀ i, Newest sub last i → ¬Lost sub.dbNamespace m log (dataKey sub.dbNamespace (toIndex i))

section Buffer

variable {n last c : ℕ}

theorem Buffer.stored (h : Buffer sub s log n last c) (hover : sub.eventsMax.toNat < n) {i : ℕ}
    (hi : Newest sub last i) :
    lookup s.db kEvents (dataKey sub.dbNamespace (toIndex i)) ≠ none := by
  have hmem := (h.buffered (dataKey sub.dbNamespace (toIndex i))).mpr ⟨i, by
    have hlow := hi.1
    omega, hi.2, rfl⟩
  exact Option.isSome_iff_ne_none.mp (mem_bufferedKeys.mp hmem).2

/-- The whole check of a buffer over its limit: it stops after the first part, or goes on
to expire bins. -/
theorem Buffer.run_expireCheck (p : Process) (h : Buffer sub s log n last c)
    (hover : sub.eventsMax.toNat < n) :
    ∃ db₁, Removes (Overrun sub.dbNamespace (last + 1 - n)
        (min (c - sub.eventsMax.toNat - 1) last)) s.db db₁ ∧
      match boundary p s.members (boundaryRow sub s n last c) with
      | none => ((expireCheck p sub).run s).2 = ⟨db₁, s.members⟩
      | some m => Expired sub.dbNamespace m log db₁ ((expireCheck p sub).run s).2.db := by
  obtain ⟨db₁, hrun, hrem⟩ := h.run_deleteOverflow hover
  have hover' : ¬(bufferedKeys sub s.db).length ≤ sub.eventsMax.toNat := by
    rw [h.length_eq]
    omega
  have hdata : ∀ key, Overrun sub.dbNamespace (last + 1 - n)
      (min (c - sub.eventsMax.toNat - 1) last) key → IsData key := fun key hkey =>
    isPrefix_of_between (dataKey_isPrefix _ _) (dataKey_isPrefix _ _) hkey.2.1 hkey.2.2
  have hrep : Represents sub.dbNamespace db₁ log :=
    h.represents.of_valueAt (hrem.valueAt_eq fun hk => indexKey_not_isData _ (hdata _ hk))
      fun b => hrem.valueAt_eq fun hk => recordKey_not_isData _ _ (hdata _ hk)
  have hrow : valueAt db₁ ("data." ++ sub.dbNamespace ++ "." ++
      toIndex (UInt64.ofNat c - sub.eventsMax).toNat) = boundaryRow sub s n last c := by
    rw [h.toNat_threshold hover, boundaryRow]
    split
    · rename_i hk
      exact hrem.valueAt_gone hk
    · rename_i hk
      exact hrem.valueAt_eq hk
  have hcheck : ((expireCheck p sub).run s) =
      (expireBefore p sub (boundaryRow sub s n last c)).run ⟨db₁, s.members⟩ := by
    rw [run_expireCheck_eq, if_neg hover', evictOverflow, Prog.run_bind, run_readEvents,
      h.lexicalCast_eid (by omega)]
    simp only [Prog.run_bind, hrun, run_readEvents, hrow]
  refine ⟨db₁, hrem, ?_⟩
  rw [hcheck]
  exact run_expireBefore (s := ⟨db₁, s.members⟩) p hrep h.wholeMinute _

/-- What the check keeps of one event. -/
theorem Buffer.keeps_iff (p : Process) (h : Buffer sub s log n last c)
    (hover : sub.eventsMax.toNat < n) {i : ℕ} (hi : Newest sub last i) :
    lookup ((expireCheck p sub).run s).2.db kEvents (dataKey sub.dbNamespace (toIndex i)) =
        lookup s.db kEvents (dataKey sub.dbNamespace (toIndex i)) ↔
      ¬Overrun sub.dbNamespace (last + 1 - n) (min (c - sub.eventsMax.toNat - 1) last)
          (dataKey sub.dbNamespace (toIndex i)) ∧
        ∀ m, boundary p s.members (boundaryRow sub s n last c) = some m →
          ¬Lost sub.dbNamespace m log (dataKey sub.dbNamespace (toIndex i)) := by
  obtain ⟨db₁, hrem, hrest⟩ := h.run_expireCheck p hover
  have hsome := h.stored hover hi
  have hnotIndex := dataKey_not_index sub.dbNamespace sub.dbNamespace (toIndex i)
  cases hbound : boundary p s.members (boundaryRow sub s n last c) with
  | none =>
      rw [hbound] at hrest
      rw [hrest]
      constructor
      · intro heq
        refine ⟨fun hk => ?_, by simp⟩
        rw [hrem.gone _ hk] at heq
        exact hsome heq.symm
      · intro hk
        exact hrem.kept _ _ fun hk' => hk.1 hk'.2
  | some m =>
      rw [hbound] at hrest
      have hkept : ¬Lost sub.dbNamespace m log (dataKey sub.dbNamespace (toIndex i)) →
          lookup ((expireCheck p sub).run s).2.db kEvents (dataKey sub.dbNamespace (toIndex i)) =
            lookup db₁ kEvents (dataKey sub.dbNamespace (toIndex i)) := by
        intro hlost
        apply hrest.kept
        rintro ⟨-, hk | hk | hk⟩
        · exact hnotIndex (Or.inl hk)
        · exact hnotIndex (Or.inr hk)
        · exact hlost hk
      simp only [Option.some.injEq, forall_eq']
      constructor
      · intro heq
        have hlost : ¬Lost sub.dbNamespace m log (dataKey sub.dbNamespace (toIndex i)) := by
          intro hk
          rw [hrest.gone _ hk] at heq
          exact hsome heq.symm
        refine ⟨fun hk => ?_, hlost⟩
        rw [hkept hlost, hrem.gone _ hk] at heq
        exact hsome heq.symm
      · rintro ⟨hover', hlost⟩
        rw [hkept hlost]
        exact hrem.kept _ _ fun hk => hover' hk.2

/-- The check keeps the newest events if and only if the buffer is within its limit, or none
of them lies in a range that the check deletes. -/
theorem expireCheck_keepsNewest_iff (p : Process) (h : Buffer sub s log n last c) :
    KeepsNewest sub s ((expireCheck p sub).run s).2 n last c ↔
      n ≤ sub.eventsMax.toNat ∨ SparesNewest p sub s log n last c := by
  by_cases hover : sub.eventsMax.toNat < n
  · have hpos := h.positive
    have hres := h.reserved
    rw [or_iff_right (by omega)]
    constructor
    · intro hkeeps
      exact ⟨fun i hi => ((h.keeps_iff p hover hi).mp (hkeeps.newest hover i hi)).1,
        fun m hm i hi => ((h.keeps_iff p hover hi).mp (hkeeps.newest hover i hi)).2 m hm⟩
    · intro hspares
      refine ⟨fun hle => absurd hle (by omega), fun _ i hi => ?_, fun _ => ?_⟩
      · exact (h.keeps_iff p hover hi).mpr
          ⟨hspares.below i hi, fun m hm => hspares.earlier m hm i hi⟩
      · rw [h.toNat_threshold hover]
        omega
  · refine iff_of_true ⟨fun _ => ?_, fun hlt => absurd hlt hover, fun hlt => absurd hlt hover⟩
      (Or.inl (not_lt.mp hover))
    rw [run_expireCheck_eq, if_pos]
    rw [h.length_eq]
    omega

end Buffer

/-! ### A reservation ahead of the last id -/

/-- Two events of a subscriber that keeps one, out of ten reserved ids. -/
def reservedState : State :=
  execAll sampleProcess shortSubscriber [.addBatch [sampleRow "a", sampleRow "b"] 100 300] initial

theorem reserved_buffer : ∃ log, Buffer shortSubscriber reservedState log 2 2 10 := by
  obtain ⟨log, h⟩ := stored_execAll sampleProcess
    [.addBatch [sampleRow "a", sampleRow "b"] 100 300] (stored_initial shortSubscriber)
  have hkeys : bufferedKeys shortSubscriber reservedState.db =
      [dataKey shortSubscriber.dbNamespace (toIndex 1),
        dataKey shortSubscriber.dbNamespace (toIndex 2)] := by
    decide +kernel
  refine ⟨log, h.represents, h.wholeMinute, fun key => ?_, by decide,
    ⟨Or.inr (by decide +kernel), rfl⟩, by decide, by decide⟩
  rw [hkeys, List.mem_pair]
  constructor
  · rintro (rfl | rfl)
    · exact ⟨1, by decide, by decide, rfl⟩
    · exact ⟨2, by decide, by decide, rfl⟩
  · rintro ⟨i, hlow, hhigh, rfl⟩
    obtain rfl | rfl : i = 1 ∨ i = 2 := by omega
    · exact Or.inl rfl
    · exact Or.inr rfl

theorem expireCheck_keepsNewest_reserved :
    ∃ log, Buffer shortSubscriber reservedState log 2 2 10 ∧
      (KeepsNewest shortSubscriber reservedState
          ((expireCheck sampleProcess shortSubscriber).run reservedState).2 2 2 10 ↔
        2 ≤ shortSubscriber.eventsMax.toNat ∨
          SparesNewest sampleProcess shortSubscriber reservedState log 2 2 10) := by
  obtain ⟨log, h⟩ := reserved_buffer
  exact ⟨log, h, expireCheck_keepsNewest_iff sampleProcess h⟩

/-- The threshold is nine, so the check deletes the newest event as well. -/
theorem reserved_not_keepsNewest :
    ¬∀ (p : Process) (sub : Subscriber) (actions : List Action) (log : EventLog) (n last c : ℕ),
      Buffer sub (execAll p sub actions initial) log n last c → 1 ≤ sub.eventsMax →
        KeepsNewest sub (execAll p sub actions initial)
          ((expireCheck p sub).run (execAll p sub actions initial)).2 n last c := by
  intro h
  obtain ⟨log, hlog⟩ := reserved_buffer
  have hkeeps := h sampleProcess shortSubscriber
    [.addBatch [sampleRow "a", sampleRow "b"] 100 300] log 2 2 10 hlog (by decide)
  have hsame := hkeeps.newest (by decide) 2 ⟨by decide, by decide⟩
  have hbefore : (lookup reservedState.db kEvents
      (dataKey shortSubscriber.dbNamespace (toIndex 2))).isSome = true := by
    decide +kernel
  have hafter : (lookup ((expireCheck sampleProcess shortSubscriber).run reservedState).2.db kEvents
      (dataKey shortSubscriber.dbNamespace (toIndex 2))).isSome = false := by
    decide +kernel
  change lookup _ _ _ = lookup reservedState.db _ _ at hsame
  rw [← hsame] at hbefore
  exact Bool.false_ne_true (hafter.symm.trans hbefore)

end Osquery.EventSubscribers
