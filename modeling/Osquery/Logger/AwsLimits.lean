import Osquery.Logger.AwsDelivery

/-!
# The limits of a batch

A record that is too big is put aside. The others are put into batches in their order, and a
batch is complete when the next record would reach the limit of bytes, or when it has the
number of records that is allowed.

## Implementation notes

A size is the number of bytes of the text, as the source has it, with the separator that ends
the data of a record where there is one.
-/

namespace Osquery.Logger

/-- The bytes of a batch. -/
def Batch.size (batch : Batch) : ℕ := (batch.map fun record => record.2.utf8ByteSize).sum

theorem Batch.size_append (batch : Batch) (record : Record) :
    Batch.size (batch ++ [record]) = batch.size + record.2.utf8ByteSize := by
  simp [size]

namespace AwsLogForwarder

variable (f : AwsLogForwarder)

/-- The records that are put aside. -/
def discardedRecords (log_type : String) (log_data : List Line) : List String :=
  (log_data.foldl (f.generate log_type) {}).discarded_records

/-- The lines that are made records, with the documents. -/
def acceptedLines (log_type : String) (log_data : List Line) : List Line :=
  log_data.filterMap fun line => (f.appendLogTypeToJson log_type line.2).map (line.1, ·)

/-- A record is below both limits of bytes. -/
def Fits (record : String) : Prop :=
  f.recordSize record < f.getMaxBytesPerRecord ∧ f.recordSize record < f.getMaxBytesPerBatch

instance (record : String) : Decidable (f.Fits record) := inferInstanceAs (Decidable (_ ∧ _))

def recordOf (line : Line) : Record := (line.1, f.recordData line.2)

/-- The records of the accepted lines that are small enough, in the order of the lines. -/
def fittingRecords (lines : List Line) : List Record :=
  (lines.filter fun line => f.Fits line.2).map f.recordOf

/-- The accepted lines that are too big, in their order. -/
def bigRecords (lines : List Line) : List String :=
  (lines.filter fun line => ¬ f.Fits line.2).map (·.2)

/-- A batch that the protocol allows. -/
structure Allowed (batch : Batch) : Prop where
  nonempty : batch ≠ []
  length_le : batch.length ≤ f.getMaxRecordsPerBatch
  size_lt : batch.size < f.getMaxBytesPerBatch

/-- What holds of the batches after every line. -/
structure Filling (g : Generated) : Prop where
  completed : ∀ batch ∈ g.batch_list, f.Allowed batch
  current : g.current_batch ≠ [] → f.Allowed g.current_batch
  counted : g.current_batch_byte_size = Batch.size g.current_batch

/-- The records that have been put into batches. -/
def Generated.records (g : Generated) : List Record := g.batch_list.flatten ++ g.current_batch

/-! ### Sizes -/

theorem utf8ByteSize_recordData (record : String) :
    (f.recordData record).utf8ByteSize = f.recordSize record := by
  rw [recordData, recordSize]
  split
  · rw [String.utf8ByteSize_append]
    rfl
  · rfl

theorem not_fits (record : String) :
    ¬ f.Fits record ↔ f.recordSize record ≥ f.getMaxBytesPerRecord ∨
      f.recordSize record ≥ f.getMaxBytesPerBatch := by
  rw [Fits]
  omega

/-- Data with a separator at its end comes from one text only. -/
theorem recordData_inj {record record' : String}
    (h : f.recordData record = f.recordData record') : record = record' := by
  rw [recordData, recordData] at h
  split at h
  · exact String.append_left_inj "\n" |>.mp h
  · exact h

/-! ### One line -/

variable {f}

theorem records_completeBatch (g : Generated) (record_size : ℕ) :
    Generated.records (f.completeBatch g record_size) = Generated.records g := by
  rw [completeBatch]
  split
  · simp [Generated.records]
  · rfl

theorem discarded_completeBatch (g : Generated) (record_size : ℕ) :
    (f.completeBatch g record_size).discarded_records = g.discarded_records := by
  rw [completeBatch]
  split <;> rfl

/-- After a batch was completed there is room for the next record. -/
theorem completeBatch_room {g : Generated} {record_size : ℕ}
    (hmax : 1 ≤ f.getMaxRecordsPerBatch) (hsize : record_size < f.getMaxBytesPerBatch) :
    (f.completeBatch g record_size).current_batch.length < f.getMaxRecordsPerBatch ∧
      (f.completeBatch g record_size).current_batch_byte_size + record_size <
        f.getMaxBytesPerBatch := by
  rw [completeBatch]
  split
  · refine ⟨hmax, ?_⟩
    rw [Nat.zero_add]
    exact hsize
  · next hroom =>
      rw [not_or] at hroom
      exact ⟨Nat.lt_of_not_le hroom.2, Nat.lt_of_not_le hroom.1⟩

/-- A batch that is completed is not empty, since a record fits into an empty one. -/
theorem Filling.completeBatch {g : Generated} {record_size : ℕ} (h : f.Filling g)
    (hmax : 1 ≤ f.getMaxRecordsPerBatch) (hsize : record_size < f.getMaxBytesPerBatch) :
    f.Filling (f.completeBatch g record_size) := by
  rw [AwsLogForwarder.completeBatch]
  split
  · next hfull =>
      have hne : g.current_batch ≠ [] := by
        intro hnil
        have hcounted := h.counted
        rw [hnil] at hcounted hfull
        have hzero : g.current_batch_byte_size = 0 := hcounted
        rw [hzero, List.length_nil] at hfull
        omega
      refine ⟨?_, fun hnil => absurd rfl hnil, rfl⟩
      intro batch hbatch
      rcases List.mem_append.mp hbatch with hold | hnew
      · exact h.completed batch hold
      · rw [List.mem_singleton.mp hnew]
        exact h.current hne
  · exact h

/-- What a line does: nothing, one more big record, or one more record in the batches. -/
theorem generate_cases (log_type : String) (g : Generated) (line : Line) :
    (f.acceptedLines log_type [line] = [] ∧ f.generate log_type g line = g) ∨
    ∃ record, f.acceptedLines log_type [line] = [(line.1, record)] ∧
      ((¬ f.Fits record ∧ f.generate log_type g line =
          { g with discarded_records := g.discarded_records ++ [record] }) ∨
        (f.Fits record ∧ f.generate log_type g line =
          let g' := f.completeBatch g (f.recordSize record)
          { g' with
            current_batch := g'.current_batch ++ [f.recordOf (line.1, record)]
            current_batch_byte_size := g'.current_batch_byte_size + f.recordSize record })) := by
  rw [generate]
  cases hrecord : f.appendLogTypeToJson log_type line.2 with
  | none => exact Or.inl ⟨by simp [acceptedLines, hrecord], rfl⟩
  | some record =>
      refine Or.inr ⟨record, by simp [acceptedLines, hrecord], ?_⟩
      simp only
      split
      · next hbig => exact Or.inl ⟨(f.not_fits record).mpr hbig, rfl⟩
      · next hbig => exact Or.inr ⟨not_not.mp (mt (f.not_fits record).mp hbig), rfl⟩

theorem Filling.generate {g : Generated} (h : f.Filling g)
    (hmax : 1 ≤ f.getMaxRecordsPerBatch) (log_type : String) (line : Line) :
    f.Filling (f.generate log_type g line) := by
  rcases generate_cases log_type g line with ⟨-, heq⟩ | ⟨record, -, ⟨-, heq⟩ | ⟨hfits, heq⟩⟩
  · rwa [heq]
  · rw [heq]
    exact ⟨h.completed, h.current, h.counted⟩
  · have hfilled := h.completeBatch hmax hfits.2
    obtain ⟨hlength, hbytes⟩ := completeBatch_room (g := g) hmax hfits.2
    have hsize : Batch.size ((f.completeBatch g (f.recordSize record)).current_batch ++
        [f.recordOf (line.1, record)]) =
          (f.completeBatch g (f.recordSize record)).current_batch_byte_size +
            f.recordSize record := by
      rw [Batch.size_append, ← hfilled.counted, recordOf, utf8ByteSize_recordData]
    rw [heq]
    refine ⟨hfilled.completed, fun _ => ⟨by simp, ?_, ?_⟩, hsize.symm⟩
    · rw [List.length_append, List.length_singleton]
      exact hlength
    · rw [hsize]
      exact hbytes

theorem generate_records (log_type : String) (g : Generated) (line : Line) :
    Generated.records (f.generate log_type g line) =
      Generated.records g ++ f.fittingRecords (f.acceptedLines log_type [line]) ∧
    (f.generate log_type g line).discarded_records =
      g.discarded_records ++ f.bigRecords (f.acceptedLines log_type [line]) := by
  rcases generate_cases log_type g line with
    ⟨hline, heq⟩ | ⟨record, hline, ⟨hfits, heq⟩ | ⟨hfits, heq⟩⟩
  · rw [heq, hline]
    simp [fittingRecords, bigRecords]
  · rw [heq, hline]
    simp [fittingRecords, bigRecords, hfits, Generated.records]
  · rw [heq, hline]
    constructor
    · have hrecords := records_completeBatch (f := f) g (f.recordSize record)
      simp only [Generated.records] at hrecords ⊢
      rw [← List.append_assoc, hrecords]
      simp [fittingRecords, hfits]
    · simp [bigRecords, hfits, discarded_completeBatch]

/-! ### All lines -/

theorem Filling.foldl (hmax : 1 ≤ f.getMaxRecordsPerBatch) (log_type : String)
    (log_data : List Line) {g : Generated} (h : f.Filling g) :
    f.Filling (log_data.foldl (f.generate log_type) g) := by
  induction log_data generalizing g with
  | nil => exact h
  | cons line log_data ih => exact ih (h.generate hmax log_type line)

theorem acceptedLines_cons (log_type : String) (line : Line) (log_data : List Line) :
    f.acceptedLines log_type (line :: log_data) =
      f.acceptedLines log_type [line] ++ f.acceptedLines log_type log_data := by
  rw [acceptedLines, acceptedLines, acceptedLines, ← List.filterMap_append]
  rfl

theorem foldl_records (log_type : String) (log_data : List Line) (g : Generated) :
    Generated.records (log_data.foldl (f.generate log_type) g) =
      Generated.records g ++ f.fittingRecords (f.acceptedLines log_type log_data) ∧
    (log_data.foldl (f.generate log_type) g).discarded_records =
      g.discarded_records ++ f.bigRecords (f.acceptedLines log_type log_data) := by
  induction log_data generalizing g with
  | nil => simp [acceptedLines, fittingRecords, bigRecords]
  | cons line log_data ih =>
      obtain ⟨hrecords, hdiscarded⟩ := ih (f.generate log_type g line)
      obtain ⟨hline, hline'⟩ := generate_records (f := f) log_type g line
      rw [List.foldl_cons, hrecords, hdiscarded, hline, hline',
        acceptedLines_cons log_type line log_data]
      simp [fittingRecords, bigRecords]

theorem flatten_consumeData (log_type : String) (log_data : List Line) :
    (f.consumeDataAndGenerateBatches log_type log_data).flatten =
      Generated.records (log_data.foldl (f.generate log_type) {}) := by
  rw [consumeDataAndGenerateBatches, Generated.records]
  split
  · rw [List.flatten_append, List.flatten_singleton]
  · next hempty => rw [not_not.mp hempty, List.append_nil]

theorem Filling.consumeData (hmax : 1 ≤ f.getMaxRecordsPerBatch) (log_type : String)
    (log_data : List Line) :
    ∀ batch ∈ f.consumeDataAndGenerateBatches log_type log_data, f.Allowed batch := by
  have h : f.Filling (log_data.foldl (f.generate log_type) {}) :=
    Filling.foldl hmax log_type log_data
      ⟨fun batch hbatch => absurd hbatch List.not_mem_nil, fun hnil => absurd rfl hnil, rfl⟩
  intro batch hbatch
  rw [consumeDataAndGenerateBatches] at hbatch
  split at hbatch
  · next hne =>
      rcases List.mem_append.mp hbatch with hold | hlast
      · exact h.completed batch hold
      · rw [List.mem_singleton.mp hlast]
        exact h.current hne
  · exact h.completed batch hbatch

variable (f)

/-- The batches are within the limits and hold, in order, the records of the accepted lines that
are small enough. The other accepted lines are put aside, and no line is in both places. -/
theorem batches_within_limits (hmax : 1 ≤ f.getMaxRecordsPerBatch) (log_type : String)
    (log_data : List Line) :
    (∀ batch ∈ f.consumeDataAndGenerateBatches log_type log_data,
      batch ≠ [] ∧ batch.length ≤ f.getMaxRecordsPerBatch ∧
        Batch.size batch < f.getMaxBytesPerBatch) ∧
    (f.consumeDataAndGenerateBatches log_type log_data).flatten =
      f.fittingRecords (f.acceptedLines log_type log_data) ∧
    f.discardedRecords log_type log_data =
      f.bigRecords (f.acceptedLines log_type log_data) ∧
    ∀ record ∈ (f.consumeDataAndGenerateBatches log_type log_data).flatten,
      ∀ big ∈ f.discardedRecords log_type log_data, record.2 ≠ f.recordData big := by
  obtain ⟨hrecords, hdiscarded⟩ := foldl_records (f := f) log_type log_data {}
  have hflatten : (f.consumeDataAndGenerateBatches log_type log_data).flatten =
      f.fittingRecords (f.acceptedLines log_type log_data) := by
    rw [flatten_consumeData, hrecords]
    rfl
  have hbig : f.discardedRecords log_type log_data =
      f.bigRecords (f.acceptedLines log_type log_data) := by
    rw [discardedRecords, hdiscarded, List.nil_append]
  refine ⟨?_, hflatten, hbig, ?_⟩
  · intro batch hbatch
    have h := Filling.consumeData hmax log_type log_data batch hbatch
    exact ⟨h.nonempty, h.length_le, h.size_lt⟩
  · intro record hrecord big hmem heq
    rw [hflatten, fittingRecords, List.mem_map] at hrecord
    obtain ⟨line, hline, rfl⟩ := hrecord
    rw [hbig, bigRecords, List.mem_map] at hmem
    obtain ⟨line', hline', rfl⟩ := hmem
    have hfits := of_decide_eq_true (List.mem_filter.mp hline).2
    have hnot := of_decide_eq_true (List.mem_filter.mp hline').2
    rw [← f.recordData_inj heq] at hnot
    exact hnot hfits

end AwsLogForwarder

/-- The fourth of five lines is too big for a record of its own. -/
def fiveLines : List Line :=
  [("1", "\x7b\"batch1\":\"1\"\x7d"), ("2", "\x7b\"batch1\":\"2\"\x7d"),
    ("3", "\x7b\"batch1\":\"3\"\x7d"),
    ("4", "\x7b\"batch1\":\"a text that makes the record as long as the limit, or longer\"\x7d"),
    ("5", "\x7b\"batch1\":\"5\"\x7d")]

theorem fiveLines_within_limits :
    1 ≤ dummyForwarder.getMaxRecordsPerBatch ∧
    (∀ batch ∈ dummyForwarder.consumeDataAndGenerateBatches "result" fiveLines,
      batch ≠ [] ∧ batch.length ≤ 3 ∧ Batch.size batch < 128) ∧
    (dummyForwarder.discardedRecords "result" fiveLines).length = 1 :=
  ⟨by decide,
    (dummyForwarder.batches_within_limits (by decide) "result" fiveLines).1,
    by decide +kernel⟩

end Osquery.Logger
