import Osquery.EventSubscribers.Subscriber
import Osquery.Foundation.Grouping

/-!
# The event index as a log

What a subscriber stores about its events is the text form of one list: the
records in the order of their ids. The index is the list of bins in the order
of their first record, and the record list of a bin is the group of that bin.
Recording appends to the list and expiry removes whole bins from it.

## Implementation notes

`Represents` says nothing about missing values: a missing value and an empty
text read the same in every modelled function.
-/

namespace Osquery.EventSubscribers

open Foundation.AtomicProgram Foundation.JsonText Foundation.Numeral Foundation.Separated
open Foundation.Grouping Core.BackingStore Core.Conversions Core.Rows

/-- The id and the time of an event. -/
structure Record where
  eid : ℕ
  time : EventTime
  deriving DecidableEq, Repr

/-- The minute of an event. -/
def Record.bin (r : Record) : ℕ := r.time.toNat / 60

/-- An event as it stands in a record list. -/
def Record.text (r : Record) : String := toIndex r.eid ++ ":" ++ toText r.time.toNat

/-- The records of a subscriber in the order of their ids. -/
structure EventLog where
  records : List Record
  increasing : records.Pairwise fun a b => a.eid < b.eid

namespace EventLog

/-- The log without events. -/
def empty : EventLog := ⟨[], List.Pairwise.nil⟩

/-- The bins in the order of their first record. -/
def bins (log : EventLog) : List ℕ := keys Record.bin log.records

/-- The records of a bin. -/
def binRecords (log : EventLog) (b : ℕ) : List Record := group Record.bin log.records b

/-- Keep the records whose bin satisfies a predicate. -/
def keep (log : EventLog) (keepBin : ℕ → Bool) : EventLog :=
  ⟨log.records.filter fun r => keepBin r.bin, log.increasing.filter _⟩

/-- Append records of one time with fresh ids. -/
def append (log : EventLog) (new : List Record) (hnew : new.Pairwise fun a b => a.eid < b.eid)
    (hfresh : ∀ a ∈ log.records, ∀ b ∈ new, a.eid < b.eid) : EventLog :=
  ⟨log.records ++ new, List.pairwise_append.mpr ⟨log.increasing, hnew, hfresh⟩⟩

end EventLog

/-! ### Keys -/

def indexKey (ns : String) : String := "indexes." ++ ns ++ ".60"

def recordKey (ns bin : String) : String := "records." ++ ns ++ ".60." ++ bin

def dataKey (ns eid : String) : String := "data." ++ ns ++ "." ++ eid

/-- A value of the events domain; a missing one reads as the empty text. -/
def valueAt (db : Database) (key : String) : String := (lookup db kEvents key).getD ""

/-- The stored texts are those of the log. -/
structure Represents (ns : String) (db : Database) (log : EventLog) : Prop where
  index : valueAt db (indexKey ns) = join (log.bins.map toText) ","
  records : ∀ b, valueAt db (recordKey ns (toText b)) =
    join ((log.binRecords b).map Record.text) ","

/-! ### Reading the texts back -/

/-- A time as it is read from a record: it has to fit a signed integer. -/
def readTime (t : EventTime) : EventTime := if t.toNat < 2 ^ 63 then t else 0

/-- An id as it is read from a record. -/
def readEid (eid : ℕ) : EventTime := if eid < 2 ^ 63 then UInt64.ofNat eid else 0

@[simp] theorem timeFromRecord_toText (n : ℕ) :
    timeFromRecord (toText n) = if n < 2 ^ 63 then UInt64.ofNat n else 0 :=
  tryToSigned_of_leading (leading_toText n)

@[simp] theorem timeFromRecord_toIndex (eid : ℕ) : timeFromRecord (toIndex eid) = readEid eid :=
  tryToSigned_of_leading (leading_padded 10 eid)

theorem timeFromRecord_time (t : EventTime) : timeFromRecord (toText t.toNat) = readTime t := by
  rw [timeFromRecord_toText, readTime, UInt64.ofNat_toNat]

theorem toText_chars {n : ℕ} {c : Char} (h : c ∈ (toText n).toList) : c ≠ ',' ∧ c ≠ ':' ∧
    isSpace c = false := by
  have hd := isDigit_of_mem_toText h
  refine ⟨?_, ?_, isDigit_not_space hd⟩
  · rintro rfl
    exact absurd hd (by decide)
  · rintro rfl
    exact absurd hd (by decide)

theorem toIndex_chars {n : ℕ} {c : Char} (h : c ∈ (toIndex n).toList) : c ≠ ',' ∧ c ≠ ':' ∧
    isSpace c = false := by
  have hd := isDigit_of_mem_padded h
  refine ⟨?_, ?_, isDigit_not_space hd⟩
  · rintro rfl
    exact absurd hd (by decide)
  · rintro rfl
    exact absurd hd (by decide)

theorem toIndex_ne_empty (n : ℕ) : toIndex n ≠ "" := by
  intro h
  exact padded_ne_nil 10 n (by rw [← toIndex, h]; rfl)

@[simp] theorem toIndex_inj {m n : ℕ} : toIndex m = toIndex n ↔ m = n := padded_inj

theorem Record.text_chars {r : Record} {c : Char} (h : c ∈ r.text.toList) : c ≠ ',' ∧
    isSpace c = false := by
  simp only [Record.text, String.toList_append, List.mem_append] at h
  rcases h with (h | h) | h
  · exact ⟨(toIndex_chars h).1, (toIndex_chars h).2.2⟩
  · have hc : c = ':' := by simpa using h
    subst hc
    decide
  · exact ⟨(toText_chars h).1, (toText_chars h).2.2⟩

theorem Record.text_ne_empty (r : Record) : r.text ≠ "" := by
  intro h
  have hl := congrArg String.toList h
  simp [Record.text] at hl

@[simp] theorem split_text (r : Record) :
    split r.text ":" = [toIndex r.eid, toText r.time.toNat] := by
  have hjoin : r.text = join [toIndex r.eid, toText r.time.toNat] ":" := by
    apply String.ext
    simp [Record.text, join]
  rw [hjoin]
  apply split_join rfl
  · intro x hx hc
    rcases List.mem_pair.mp hx with rfl | rfl
    · exact (toIndex_chars hc).2.1 rfl
    · exact (toText_chars hc).2.1 rfl
  · intro x hx
    rcases List.mem_pair.mp hx with rfl | rfl
    · exact toIndex_ne_empty _
    · exact toText_ne_empty _
  · intro x hx d hd
    rcases List.mem_pair.mp hx with rfl | rfl
    · exact (toIndex_chars hd).2.2
    · exact (toText_chars hd).2.2

theorem split_records (rs : List Record) :
    split (join (rs.map Record.text) ",") "," = rs.map Record.text := by
  apply split_join rfl
  · intro x hx hc
    obtain ⟨r, _, rfl⟩ := List.mem_map.mp hx
    exact (Record.text_chars hc).1 rfl
  · intro x hx
    obtain ⟨r, _, rfl⟩ := List.mem_map.mp hx
    exact r.text_ne_empty
  · intro x hx d hd
    obtain ⟨r, _, rfl⟩ := List.mem_map.mp hx
    exact (Record.text_chars hd).2

theorem join_records_eq_empty {rs : List Record} :
    join (rs.map Record.text) "," = "" ↔ rs = [] := by
  rw [join_eq_empty_iff, List.map_eq_nil_iff]
  intro x hx
  obtain ⟨r, _, rfl⟩ := List.mem_map.mp hx
  exact r.text_ne_empty

theorem splitAnyOf_bins {bs : List ℕ} (h : bs ≠ []) :
    splitAnyOf (join (bs.map toText) ",") "," = bs.map toText := by
  apply splitAnyOf_join rfl (by simpa using h)
  intro x hx hc
  obtain ⟨b, _, rfl⟩ := List.mem_map.mp hx
  exact (toText_chars hc).1 rfl

theorem join_bins_eq_empty {bs : List ℕ} : join (bs.map toText) "," = "" ↔ bs = [] := by
  rw [join_eq_empty_iff, List.map_eq_nil_iff]
  intro x hx
  obtain ⟨b, _, rfl⟩ := List.mem_map.mp hx
  exact toText_ne_empty b

/-- A bin is far below the end of the signed range. -/
theorem Record.bin_lt (r : Record) : r.bin < 2 ^ 59 := by
  have h := r.time.toNat_lt
  rw [Record.bin]
  omega

theorem timeFromRecord_bin {b : ℕ} (h : b < 2 ^ 59) :
    timeFromRecord (toText b) = UInt64.ofNat b := by
  rw [timeFromRecord_toText, if_pos (by omega)]

theorem EventLog.bin_lt {log : EventLog} {b : ℕ} (h : b ∈ log.bins) : b < 2 ^ 59 := by
  obtain ⟨r, _, rfl⟩ := (mem_keys Record.bin).mp h
  exact r.bin_lt

theorem afterFirst_index (bin : String) : afterFirst ("60." ++ bin) '.' = bin := by
  have h : ("60." ++ bin).toList = '6' :: '0' :: '.' :: bin.toList := by
    rw [String.toList_append]
    rfl
  simp [afterFirst, h]

/-! ### Different families of keys -/

theorem recordKey_inj {ns x y : String} : recordKey ns x = recordKey ns y ↔ x = y := by
  rw [recordKey, recordKey, String.append_right_inj]

theorem dataKey_inj {ns x y : String} : dataKey ns x = dataKey ns y ↔ x = y := by
  rw [dataKey, dataKey, String.append_right_inj]

theorem recordKey_eq (ns bin : String) :
    "records." ++ ns ++ "." ++ ("60." ++ bin) = recordKey ns bin := by
  have h : ".60." = "." ++ "60." := by decide
  rw [recordKey, h]
  simp only [String.append_assoc]

theorem recordKey_eq_append (ns bin : String) :
    "records." ++ ns ++ "." ++ "60" ++ "." ++ bin = recordKey ns bin := by
  have h : ".60." = "." ++ ("60" ++ ".") := by decide
  rw [recordKey, h]
  simp only [String.append_assoc]

theorem indexKey_eq_append (ns : String) : "indexes." ++ ns ++ "." ++ "60" = indexKey ns := by
  have h : ".60" = "." ++ "60" := by decide
  rw [indexKey, h]
  simp only [String.append_assoc]

@[simp] theorem EventLog.bins_keep (log : EventLog) (keepBin : ℕ → Bool) :
    (log.keep keepBin).bins = log.bins.filter keepBin :=
  keys_filter Record.bin keepBin log.records

@[simp] theorem EventLog.binRecords_keep (log : EventLog) (keepBin : ℕ → Bool) (b : ℕ) :
    (log.keep keepBin).binRecords b = if keepBin b then log.binRecords b else [] :=
  group_filter Record.bin keepBin log.records b

theorem EventLog.binRecords_eq_nil {log : EventLog} {b : ℕ} (h : b ∉ log.bins) :
    log.binRecords b = [] := by
  by_contra hne
  exact h ((group_ne_nil_iff Record.bin).mp hne)

end Osquery.EventSubscribers
