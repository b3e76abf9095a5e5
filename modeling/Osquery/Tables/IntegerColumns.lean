import Osquery.Foundation.DetectedBase
import Osquery.Tables.VirtualTable

/-!
# Integers that are read from a row

A row holds texts, and the text of an integer column is converted when the column is read. The
conversion takes the number that the text starts with, in a base that it detects, and a column
of 32 bits keeps the low bits of it. A text without a number in range is read as null.

## Implementation notes

A `long` has 64 bits. The conversion of a double stays a parameter.
-/

namespace Osquery.Tables

open Core.Rows Foundation.Numeral Foundation.DecimalText Foundation.DetectedBase

variable (Double : Type) (strtod : String → Option Double)

/-- The conversions of the C++ library. -/
def libraryConversions : Conversions where
  Double := Double
  tryToLong value := (stollDetected value).toOption
  tryToLongLong value := (stollDetected value).toOption
  strtod := strtod

/-- The types whose values are integers. -/
def ColumnType.IsInteger (type : ColumnType) : Prop :=
  type = .integer ∨ type = .bigint ∨ type = .unsignedBigint

/-- A value is null, or the integer that the whole text denotes, in 64 bits. -/
def ExactOrNull {conv : Conversions} (value : String) (result : Option (SqlValue conv)) : Prop :=
  result = some .null ∨
    ∃ n, decimal value = some n ∧ -2 ^ 63 ≤ n ∧ n < 2 ^ 63 ∧ result = some (.int n)

/-- A text has no number in range at its beginning, or is as a whole a decimal numeral without
zeros before it, or below eight, and of 32 bits in a column of 32 bits. -/
def ReadAsWritten (type : ColumnType) (value : String) : Prop :=
  (stollDetected value).toOption = none ∨
    ∃ n ∈ decimal value, (¬ LeadingZero value ∨ n.natAbs < 8) ∧
      (type = .integer → -2 ^ 31 ≤ n ∧ n < 2 ^ 31)

instance (type : ColumnType) (value : String) : Decidable (ReadAsWritten type value) :=
  inferInstanceAs (Decidable (_ ∨ _))

/-- The number that is handed to SQLite. -/
def narrowed (type : ColumnType) (n : ℤ) : ℤ :=
  if type = .integer then Int.bmod n (2 ^ 32) else n

theorem sqlValue_of_isInteger {type : ColumnType} (h : type.IsInteger) (value : String) :
    sqlValue (libraryConversions Double strtod) type value =
      ((stollDetected value).toOption).elim .null fun n => .int (narrowed type n) := by
  rcases h with rfl | rfl | rfl <;> rfl

theorem signed_eq_ok {negative : Bool} {m : ℕ} {z : ℤ} (h : signed negative m = .ok z) :
    -2 ^ 63 ≤ z ∧ z < 2 ^ 63 ∧ z = withSign negative m := by
  rw [signed] at h
  split at h
  · next hrange =>
      obtain rfl := Except.ok.inj h
      exact ⟨hrange.1, hrange.2, rfl⟩
  · exact absurd h (by simp)

/-- A number that is read with a smaller magnitude stays different when it is narrowed. -/
theorem narrowed_eq_iff {type : ColumnType} {negative : Bool} {m : ℕ} {z n : ℤ}
    (hz : z = withSign negative m) (hn : n = withSign negative n.natAbs) (hle : m ≤ n.natAbs) :
    narrowed type z = n ↔
      m = n.natAbs ∧ (type = .integer → -2 ^ 31 ≤ n ∧ n < 2 ^ 31) := by
  rw [withSign] at hz hn
  rw [narrowed]
  split
  · next htype =>
      simp only [htype, forall_const]
      rw [Int.bmod_def]
      cases negative with
      | true =>
          simp only [if_true] at hz hn
          split <;> omega
      | false =>
          simp only [Bool.false_eq_true, if_false] at hz hn
          split <;> omega
  · next htype =>
      simp only [htype, IsEmpty.forall_iff, and_true]
      cases negative with
      | true =>
          simp only [if_true] at hz hn
          omega
      | false =>
          simp only [Bool.false_eq_true, if_false] at hz hn
          omega

theorem sqlValue_exactOrNull_iff {type : ColumnType} (h : type.IsInteger) (value : String) :
    ExactOrNull value (some (sqlValue (libraryConversions Double strtod) type value)) ↔
      ReadAsWritten type value := by
  rw [sqlValue_of_isInteger Double strtod h, ExactOrNull, ReadAsWritten]
  cases hread : stollDetected value with
  | error error => exact iff_of_true (Or.inl rfl) (Or.inl rfl)
  | ok z =>
      have hsome : (Except.ok z : Except ConversionError ℤ).toOption = some z := rfl
      rw [hsome, Option.elim_some]
      simp only [Option.some.injEq, reduceCtorEq, false_or, SqlValue.int.injEq]
      apply exists_congr
      intro n
      apply and_congr_right
      intro hdecimal
      obtain ⟨negative, m, hm, hle, hsame, hn⟩ := stollDetected_of_decimal hdecimal
      obtain ⟨hlow, hhigh, hz⟩ := signed_eq_ok (hm.symm.trans hread)
      rw [← hsame, narrowed_eq_iff hz hn hle]
      constructor
      · rintro ⟨-, -, heq⟩
        exact heq
      · rintro ⟨heq, hrange⟩
        refine ⟨?_, ?_, heq, hrange⟩
        · rw [hn, ← heq, ← hz]
          exact hlow
        · rw [hn, ← heq, ← hz]
          exact hhigh

/-- Reading an integer column gives the number that the text denotes or null exactly when the
text is read as it is written. -/
theorem xColumn_exactOrNull_iff {content : VirtualTableContent} {col : ℕ} {column : Column}
    (hcolumn : content.columns[col]? = some column)
    (htype : (resolve content column).type.IsInteger) (row : Row) :
    ExactOrNull (row.getD (resolve content column).name "")
        (xColumn (libraryConversions Double strtod) content row col).2 ↔
      ReadAsWritten (resolve content column).type
        (row.getD (resolve content column).name "") := by
  rw [xColumn, hcolumn]
  exact sqlValue_exactOrNull_iff Double strtod htype _

def sizeColumn : Column := ⟨"size", .bigint, {}⟩

def deviceColumn : Column := ⟨"device", .integer, {}⟩

def fileContent : VirtualTableContent := ⟨[sizeColumn, deviceColumn], ∅, ∅, ∅⟩

theorem resolve_fileContent (column : Column) : resolve fileContent column = column := by
  simp [resolve, fileContent]

theorem xColumn_exactOrNull_iff_size :
    fileContent.columns[0]? = some sizeColumn ∧
    (resolve fileContent sizeColumn).type.IsInteger ∧
    (ExactOrNull (((∅ : Row).insert "size" "4096").getD
        (resolve fileContent sizeColumn).name "")
        (xColumn (libraryConversions Unit fun _ => none) fileContent
          ((∅ : Row).insert "size" "4096") 0).2 ↔
      ReadAsWritten (resolve fileContent sizeColumn).type
        (((∅ : Row).insert "size" "4096").getD (resolve fileContent sizeColumn).name "")) := by
  have htype : (resolve fileContent sizeColumn).type.IsInteger := by
    rw [resolve_fileContent]
    exact Or.inr (Or.inl rfl)
  exact ⟨rfl, htype, xColumn_exactOrNull_iff Unit (fun _ => none) rfl htype
    ((∅ : Row).insert "size" "4096")⟩

/-- The text of a column in a row without other columns. -/
theorem exactOrNull_fileContent {col : ℕ} {column : Column}
    (hcolumn : fileContent.columns[col]? = some column) (htype : column.type.IsInteger)
    (value : String) :
    ExactOrNull value (xColumn (libraryConversions Unit fun _ => none) fileContent
        ((∅ : Row).insert column.name value) col).2 ↔
      ReadAsWritten column.type value := by
  rw [xColumn, hcolumn]
  simp only [resolve_fileContent, Std.ExtTreeMap.getD_insert_self]
  exact sqlValue_exactOrNull_iff Unit _ htype value

/-- A zero makes a number octal, a text after a number is dropped, and a device loses its high
bits. -/
theorem not_exactOrNull_file :
    ¬ ExactOrNull "0755" (xColumn (libraryConversions Unit fun _ => none) fileContent
      ((∅ : Row).insert sizeColumn.name "0755") 0).2 ∧
    ¬ ExactOrNull "12 kB" (xColumn (libraryConversions Unit fun _ => none) fileContent
      ((∅ : Row).insert sizeColumn.name "12 kB") 0).2 ∧
    ¬ ExactOrNull "4294967297" (xColumn (libraryConversions Unit fun _ => none) fileContent
      ((∅ : Row).insert deviceColumn.name "4294967297") 1).2 := by
  have hsize : fileContent.columns[0]? = some sizeColumn := rfl
  have hdevice : fileContent.columns[1]? = some deviceColumn := rfl
  have hbigint : sizeColumn.type.IsInteger := Or.inr (Or.inl rfl)
  have hinteger : deviceColumn.type.IsInteger := Or.inl rfl
  rw [exactOrNull_fileContent hsize hbigint, exactOrNull_fileContent hsize hbigint,
    exactOrNull_fileContent hdevice hinteger]
  decide +kernel

end Osquery.Tables
