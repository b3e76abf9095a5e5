import Osquery.Foundation.Selection
import Osquery.Logger.Buffered

/-!
# Which lines a purge keeps

A purge fetches as many of the first result indexes and of the first status
indexes as it is to delete lines, and deletes the oldest of these. Indexes are
compared after their prefix, as texts: while all times have the same number of
digits this is the order of the times, and then the newest lines remain.

## Implementation notes

The oldest indexes are found by a selection, which may arrange indexes of the
same age as it likes. `Forwarder.purge` is the case of a selection by sorting.
-/

namespace Osquery.Logger

open Core.BackingStore Database Foundation.Numeral Foundation.Separated Foundation.Selection

/-! ### The purge -/

/-- The indexes that a forwarder has stored. -/
def Forwarder.lines (f : Forwarder) (db : Database) : List String :=
  Ephemeral.scan db kLogs (f.genIndexPrefix true) 0 ++
    Ephemeral.scan db kLogs (f.genIndexPrefix false) 0

def Forwarder.purgeBy (nth_element : NthElement String String) (f : Forwarder)
    (buffered_log_max : ℕ) (s : State) : State :=
  if s.buffer_count ≤ buffered_log_max then s
  else
    let purge_count := s.buffer_count - buffered_log_max
    let indexes := Ephemeral.scan s.db kLogs (f.genIndexPrefix true) purge_count ++
      Ephemeral.scan s.db kLogs (f.genIndexPrefix false) purge_count
    if indexes.length < purge_count then s
    else
      let indexes := (nth_element.arrange f.age (purge_count - 1) indexes).take purge_count
      indexes.foldl (fun s index => deleteValueWithCount index s)
        { s with purged := s.purged ++ indexes }

theorem Forwarder.purge_eq (f : Forwarder) (buffered_log_max : ℕ) (s : State) :
    f.purge buffered_log_max s = f.purgeBy (bySorting String String) buffered_log_max s := by
  have holdest : ∀ purge_count indexes, f.oldest purge_count indexes =
      ((bySorting String String).arrange f.age (purge_count - 1) indexes).take purge_count := by
    intro purge_count indexes
    rw [oldest, bySorting]
  simp only [purge, purgeBy, holdest]

/-! ### Scans of the indexes -/

section Scans

variable (f : Forwarder)

/-- A limited scan returns the beginning of the unlimited one. -/
theorem scan_eq_take (db : Database) (domain pre : String) {max : ℕ} (hmax : 0 < max) :
    Ephemeral.scan db domain pre max = (Ephemeral.scan db domain pre 0).take max := by
  rw [Ephemeral.scan, Ephemeral.scan, if_pos hmax, if_neg (lt_irrefl 0)]

theorem genIndexPrefix_length (results : Bool) :
    (f.genIndexPrefix results).length = (f.genIndexPrefix true).length := by
  cases results <;> simp only [Forwarder.genIndexPrefix, String.length_append]
  all_goals rfl

/-- The age is what follows the prefix. -/
theorem age_of_index {results : Bool} {index : String}
    (h : (f.genIndexPrefix results).toList <+: index.toList) :
    index = f.genIndexPrefix results ++ f.age index := by
  rw [Forwarder.age, ← genIndexPrefix_length f results]
  exact (append_ofList_drop h).symm

/-- Indexes of one kind are found in the order of their ages. -/
theorem scan_sorted (db : Database) (results : Bool) :
    (Ephemeral.scan db kLogs (f.genIndexPrefix results) 0).Pairwise
      fun a b => f.age a ≤ f.age b := by
  have hkeys : (Ephemeral.scan db kLogs (f.genIndexPrefix results) 0).Pairwise
      fun a b => compare a b = .lt :=
    List.Pairwise.sublist (scan_sublist db kLogs _ 0) Std.ExtTreeMap.ordered_keys
  apply hkeys.imp_of_mem
  intro a b ha hb hlt
  have hle : a ≤ b := (compare_lt_iff_lt.mp hlt).le
  rw [age_of_index f (mem_scan_zero.mp ha).2, age_of_index f (mem_scan_zero.mp hb).2,
    append_le_append_iff] at hle
  exact hle

theorem nodup_lines (db : Database) : (f.lines db).Nodup := by
  apply (nodup_scan _ _ _ _).append (nodup_scan _ _ _ _)
  intro key hresult hstatus
  exact disjoint_prefixes f (of_mem_scan hresult).2 (of_mem_scan hstatus).2

theorem mem_lines {db : Database} {key : String} : key ∈ f.lines db ↔
    (lookup db kLogs key).isSome = true ∧
      ((f.genIndexPrefix true).toList <+: key.toList ∨
        (f.genIndexPrefix false).toList <+: key.toList) := by
  rw [Forwarder.lines, List.mem_append, mem_scan_zero, mem_scan_zero, and_or_left]

/-- While the times have one number of digits, an older line has the smaller age. -/
theorem age_lt_of_time_lt {results results' : Bool} {time time' number number' : ℕ}
    (hdigits : (toText time).length = (toText time').length) (h : time < time') :
    f.age (f.index results time number) < f.age (f.index results' time' number') := by
  have hage : ∀ results time number, (f.age (f.index results time number)).toList =
      (toText time).toList ++ ("_" ++ toText number).toList := by
    intro results time number
    rw [Forwarder.age, ← genIndexPrefix_length f results, Forwarder.index, String.append_assoc,
      String.append_assoc, ofList_drop_append, String.toList_append]
  rw [String.lt_iff_toList_lt, hage, hage]
  rw [← String.length_toList, ← String.length_toList] at hdigits
  exact append_lt_append_of_lt hdigits ((toText_lt_toText hdigits).mpr h) _ _

/-- An index tells the time of its line. -/
theorem time_of_index {results results' : Bool} {time time' number number' : ℕ}
    (h : f.index results time number = f.index results' time' number') : time = time' := by
  have hchars := congrArg String.toList h
  rw [index_toList, index_toList] at hchars
  have hrest := List.append_cancel_left hchars
  have htimes := (List.cons.inj (List.cons.inj (List.cons.inj hrest).2).2).2
  have htext := (append_cons_inj (underscore_not_mem_toText _) (underscore_not_mem_toText _)
    htimes).1
  exact toText_inj.mp (String.toList_inj.mp htext)

/-- A set of indexes whose times have one number of digits. -/
def UniformTimes (digits : ℕ) (indexes : List String) : Prop :=
  ∀ key ∈ indexes, ∃ results time number,
    key = f.index results time number ∧ (toText time).length = digits

theorem UniformTimes.length_eq {digits : ℕ} {indexes : List String}
    (h : UniformTimes f digits indexes) {results : Bool} {time number : ℕ}
    (hmem : f.index results time number ∈ indexes) : (toText time).length = digits := by
  obtain ⟨results', time', number', heq, hdigits⟩ := h _ hmem
  rw [time_of_index f heq]
  exact hdigits

/-- Then a line whose age is not greater is not newer. -/
theorem UniformTimes.time_le {digits : ℕ} {indexes : List String}
    (h : UniformTimes f digits indexes) {results results' : Bool} {time time' number number' : ℕ}
    (hmem : f.index results time number ∈ indexes)
    (hmem' : f.index results' time' number' ∈ indexes)
    (hage : f.age (f.index results time number) ≤ f.age (f.index results' time' number')) :
    time ≤ time' := by
  by_contra hnewer
  have hdigits := (h.length_eq f hmem').trans (h.length_eq f hmem).symm
  exact absurd hage (not_le.mpr (age_lt_of_time_lt f hdigits (not_le.mp hnewer)))

end Scans

/-! ### Deleting -/

theorem deleteAll_db (keys : List String) (s : State) :
    (keys.foldl (fun s key => deleteValueWithCount key s) s).db =
      keys.foldl (fun db key => Ephemeral.remove db kLogs key) s.db := by
  induction keys generalizing s with
  | nil => rfl
  | cons key keys ih => exact ih (deleteValueWithCount key s)

section Purge

variable {nth_element : NthElement String String} {f : Forwarder} {buffered_log_max : ℕ}
  {s : State}

/-- A purge leaves the store alone, or it removes the indexes that it chose among those that
it fetched. -/
theorem Forwarder.purgeBy_cases (hcount : s.buffer_count = (f.lines s.db).length) :
    ((f.lines s.db).length ≤ buffered_log_max ∧ f.purgeBy nth_element buffered_log_max s = s) ∨
    ∃ chosen rest, buffered_log_max < (f.lines s.db).length ∧
      Parts f.age ((f.lines s.db).length - buffered_log_max)
        ((Ephemeral.scan s.db kLogs (f.genIndexPrefix true) 0).take
            ((f.lines s.db).length - buffered_log_max) ++
          (Ephemeral.scan s.db kLogs (f.genIndexPrefix false) 0).take
            ((f.lines s.db).length - buffered_log_max)) chosen rest ∧
      (f.purgeBy nth_element buffered_log_max s).db =
        chosen.foldl (fun db key => Ephemeral.remove db kLogs key) s.db := by
  rw [purgeBy]
  split
  · rename_i hfew
    exact Or.inl ⟨hcount ▸ hfew, rfl⟩
  · rename_i hmany
    have hmany : buffered_log_max < s.buffer_count := not_le.mp hmany
    have hpos : 0 < s.buffer_count - buffered_log_max := Nat.sub_pos_of_lt hmany
    dsimp only
    rw [scan_eq_take _ _ _ hpos, scan_eq_take _ _ _ hpos, hcount]
    rw [hcount] at hmany hpos
    set purge_count := (f.lines s.db).length - buffered_log_max
    have henough : purge_count ≤ ((Ephemeral.scan s.db kLogs (f.genIndexPrefix true) 0).take
        purge_count ++ (Ephemeral.scan s.db kLogs (f.genIndexPrefix false) 0).take
          purge_count).length := by
      have htotal : purge_count ≤ (f.lines s.db).length := Nat.sub_le _ _
      rw [Forwarder.lines, List.length_append] at htotal
      rw [List.length_append, List.length_take, List.length_take]
      omega
    rw [if_neg (not_lt.mpr henough)]
    exact Or.inr ⟨_, _, hmany, nth_element.parts f.age hpos henough, deleteAll_db _ _⟩

/-- The indexes after a removal of some of them. -/
theorem lines_removeAll {chosen : List String} (hnodup : chosen.Nodup)
    (hsub : ∀ key ∈ chosen, key ∈ f.lines s.db) {db : Database}
    (hdb : db = chosen.foldl (fun db key => Ephemeral.remove db kLogs key) s.db) :
    (∀ key, key ∈ f.lines db ↔ key ∈ f.lines s.db ∧ key ∉ chosen) ∧
      (f.lines db).length + chosen.length = (f.lines s.db).length := by
  have hmem : ∀ key, key ∈ f.lines db ↔ key ∈ f.lines s.db ∧ key ∉ chosen := by
    intro key
    rw [mem_lines, mem_lines, hdb, lookup_foldl_remove]
    by_cases hkey : key ∈ chosen
    · simp [hkey]
    · rw [if_neg fun h => hkey h.2, and_iff_left hkey]
  have hperm : (f.lines db ++ chosen).Perm (f.lines s.db) := by
    apply (List.perm_ext_iff_of_nodup _ (nodup_lines f s.db)).mpr
    · intro key
      rw [List.mem_append, hmem]
      by_cases hkey : key ∈ chosen
      · exact iff_of_true (Or.inr hkey) (hsub key hkey)
      · rw [or_iff_left hkey, and_iff_left hkey]
    · exact (nodup_lines f db).append hnodup fun key hkept hgone => ((hmem key).mp hkept).2 hgone
  refine ⟨hmem, ?_⟩
  rw [← List.length_append]
  exact hperm.length_eq

/-- What is chosen among the first indexes of each kind are stored indexes. -/
theorem chosen_of_parts {n : ℕ} {chosen rest : List String}
    (h : Parts f.age n ((Ephemeral.scan s.db kLogs (f.genIndexPrefix true) 0).take n ++
      (Ephemeral.scan s.db kLogs (f.genIndexPrefix false) 0).take n) chosen rest) :
    chosen.Nodup ∧ ∀ key ∈ chosen, key ∈ f.lines s.db := by
  have hfetched : ((Ephemeral.scan s.db kLogs (f.genIndexPrefix true) 0).take n ++
      (Ephemeral.scan s.db kLogs (f.genIndexPrefix false) 0).take n).Sublist (f.lines s.db) :=
    (List.take_sublist _ _).append (List.take_sublist _ _)
  constructor
  · have hnodup := h.perm.nodup_iff.mpr ((nodup_lines f s.db).sublist hfetched)
    exact List.Nodup.of_append_left hnodup
  · intro key hkey
    apply hfetched.subset
    exact h.perm.mem_iff.mp (List.mem_append_left _ hkey)

/-- No index that is chosen has a greater age than one that is not. -/
theorem age_le_of_parts {n : ℕ} {chosen rest : List String}
    (h : Parts f.age n ((Ephemeral.scan s.db kLogs (f.genIndexPrefix true) 0).take n ++
      (Ephemeral.scan s.db kLogs (f.genIndexPrefix false) 0).take n) chosen rest)
    {key key' : String} (hkey : key ∈ chosen) (hkey' : key' ∈ f.lines s.db)
    (hkept : key' ∉ chosen) : f.age key ≤ f.age key' := by
  have hnodup := nodup_lines f s.db
  rw [Forwarder.lines] at hkey' hnodup
  exact h.le_of_not_mem (scan_sorted f s.db true) (scan_sorted f s.db false)
    (List.Nodup.of_append_left hnodup) (List.Nodup.of_append_right hnodup) hkey hkey' hkept

/-- A purge leaves as many lines as the limit allows, as they are, and none of those that it
deletes is newer than one that remains. -/
theorem purge_keeps_newest (nth_element : NthElement String String) (f : Forwarder)
    (buffered_log_max digits : ℕ) (s : State) (hcount : s.buffer_count = (f.lines s.db).length)
    (huniform : UniformTimes f digits (f.lines s.db)) :
    let s' := f.purgeBy nth_element buffered_log_max s
    (f.lines s'.db).length = min (f.lines s.db).length buffered_log_max ∧
    (∀ key ∈ f.lines s'.db, key ∈ f.lines s.db ∧
      lookup s'.db kLogs key = lookup s.db kLogs key) ∧
    ∀ results time number results' time' number',
      f.index results time number ∈ f.lines s.db →
      f.index results time number ∉ f.lines s'.db →
      f.index results' time' number' ∈ f.lines s'.db → time ≤ time' := by
  intro s'
  rcases Forwarder.purgeBy_cases hcount with ⟨hfew, hsame⟩ | ⟨chosen, rest, hmany, hparts, hdb⟩
  · have hsame : s' = s := hsame
    rw [hsame]
    refine ⟨(Nat.min_eq_left hfew).symm, fun key hkey => ⟨hkey, rfl⟩, ?_⟩
    exact fun _ _ _ _ _ _ hbefore hafter _ => absurd hbefore hafter
  · obtain ⟨hnodup, hstored⟩ := chosen_of_parts hparts
    obtain ⟨hmem, hlength⟩ := lines_removeAll hnodup hstored hdb
    refine ⟨?_, ?_, ?_⟩
    · rw [hparts.length] at hlength
      change (f.lines s'.db).length + _ = _ at hlength
      omega
    · intro key hkey
      obtain ⟨hbefore, hkept⟩ := (hmem key).mp hkey
      refine ⟨hbefore, ?_⟩
      rw [hdb, lookup_foldl_remove, if_neg fun h => hkept h.2]
    · intro results time number results' time' number' hbefore hafter hremains
      have hchosen : f.index results time number ∈ chosen := by
        by_contra hnot
        exact hafter ((hmem _).mpr ⟨hbefore, hnot⟩)
      obtain ⟨hmember, hkept⟩ := (hmem _).mp hremains
      exact huniform.time_le f hbefore hmember (age_le_of_parts hparts hchosen hmember hkept)

end Purge

def kinesis : Forwarder := ⟨"kinesis", 500⟩

/-- Two results and a status line, of which the status line is the oldest. -/
def threeLines : State :=
  kinesis.logString "removed" 30 0 (kinesis.logLine false "started" 10 0
    (kinesis.logString "added" 20 0 ⟨Buffer.new, ∅⟩))

theorem lines_threeLines : kinesis.lines threeLines.db =
    [kinesis.index true 20 1, kinesis.index true 30 3, kinesis.index false 10 2] := by
  decide +kernel

theorem purge_keeps_newest_threeLines :
    let s' := kinesis.purgeBy (bySorting String String) 1 threeLines
    (kinesis.lines s'.db).length = min (kinesis.lines threeLines.db).length 1 ∧
    (∀ key ∈ kinesis.lines s'.db, key ∈ kinesis.lines threeLines.db ∧
      lookup s'.db kLogs key = lookup threeLines.db kLogs key) ∧
    ∀ results time number results' time' number',
      kinesis.index results time number ∈ kinesis.lines threeLines.db →
      kinesis.index results time number ∉ kinesis.lines s'.db →
      kinesis.index results' time' number' ∈ kinesis.lines s'.db → time ≤ time' := by
  apply purge_keeps_newest (bySorting String String) kinesis 1 2 threeLines
  · rw [lines_threeLines]
    decide +kernel
  · rw [lines_threeLines]
    intro key hkey
    rcases List.mem_cons.mp hkey with rfl | hkey
    · exact ⟨true, 20, 1, rfl, by decide⟩
    · rcases List.mem_cons.mp hkey with rfl | hkey
      · exact ⟨true, 30, 3, rfl, by decide⟩
      · rw [List.mem_singleton.mp hkey]
        exact ⟨false, 10, 2, rfl, by decide⟩

end Osquery.Logger
