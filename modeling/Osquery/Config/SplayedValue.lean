import Osquery.Config.Pack
import Osquery.Foundation.Recall
import Osquery.Foundation.FloatingPoint

/-!
# Splayed intervals

The interval of a query is splayed at random by at most some percent. The splayed interval is
kept in the database under the name of the query, with the interval that it was drawn for, and is
restored when the same interval is requested under that name again.

## Implementation notes

The percent is a number of single precision. A draw is a parameter, which picks a number between
two bounds; each call has its own generator, seeded by the clock, and the clock here counts the
calls. Database operations are those of the in-memory plugin.
-/

namespace Osquery.Config

open Foundation.AtomicProgram Foundation.Numeral Foundation.Recall Foundation.SinglePrecision
open Core.BackingStore Core.Conversions

/-! ### Drawing a value -/

/-- The part of the interval that it may be changed by. -/
def percentToModifyBy (splayPercent : UInt64) : ℚ := single (single splayPercent.toNat / 100)

def possibleDifference (original splayPercent : UInt64) : UInt64 :=
  UInt64.ofNat ⌊single (single original.toNat * percentToModifyBy splayPercent)⌋₊

def splayValue (draw : UInt64 → UInt64 → UInt64) (original splayPercent : UInt64) : UInt64 :=
  if splayPercent = 0 ∨ splayPercent > 100 then original
  else
    let possible_difference := possibleDifference original splayPercent
    let max_value := original + possible_difference
    let min_value := max 1 (original - possible_difference)
    if max_value = min_value then max_value else draw min_value max_value

/-- The bounds that a value is drawn from; they are equal when none is drawn. -/
def splayBounds (original splayPercent : UInt64) : UInt64 × UInt64 :=
  if splayPercent = 0 ∨ splayPercent > 100 then (original, original)
  else
    (max 1 (original - possibleDifference original splayPercent),
      original + possibleDifference original splayPercent)

theorem splayValue_eq (draw : UInt64 → UInt64 → UInt64) (original splayPercent : UInt64) :
    splayValue draw original splayPercent =
      let bounds := splayBounds original splayPercent
      if bounds.2 = bounds.1 then bounds.2 else draw bounds.1 bounds.2 := by
  rw [splayValue, splayBounds]
  by_cases h : splayPercent = 0 ∨ splayPercent > 100
  · simp only [if_pos h, if_true]
  · simp only [if_neg h]

/-- Draws stay between their bounds. -/
def Draws (draw : ℕ → UInt64 → UInt64 → UInt64) : Prop :=
  ∀ t low high, low ≤ high → low ≤ draw t low high ∧ draw t low high ≤ high

/-- A splayed interval within its bounds, and at least one. -/
def WithinBounds (original splayPercent splay : UInt64) : Prop :=
  1 ≤ splay ∧ (splayBounds original splayPercent).1 ≤ splay ∧
    splay ≤ (splayBounds original splayPercent).2

instance (original splayPercent splay : UInt64) :
    Decidable (WithinBounds original splayPercent splay) :=
  inferInstanceAs (Decidable (_ ∧ _))

/-- An interval that a pack accepts. -/
def Admissible (interval : UInt64) : Prop := 1 ≤ interval ∧ interval ≤ kMaxQueryInterval

theorem percentToModifyBy_nonneg (splayPercent : UInt64) : 0 ≤ percentToModifyBy splayPercent :=
  single_nonneg (div_nonneg (single_nonneg (Nat.cast_nonneg _)) (by norm_num))

theorem percentToModifyBy_le_one {splayPercent : UInt64} (h : splayPercent ≤ 100) :
    percentToModifyBy splayPercent ≤ 1 := by
  have hle : splayPercent.toNat ≤ 100 := UInt64.le_iff_toNat_le.mp h
  have hcast : (splayPercent.toNat : ℚ) ≤ 100 := by exact_mod_cast hle
  have hdiv : single splayPercent.toNat / 100 ≤ (1 : ℕ) := by
    rw [single_natCast (by omega), Nat.cast_one, div_le_one (by norm_num)]
    exact hcast
  have hnonneg : 0 ≤ single splayPercent.toNat / 100 :=
    div_nonneg (single_nonneg (Nat.cast_nonneg _)) (by norm_num)
  have hbound := single_le_natCast hnonneg (by norm_num) hdiv
  rwa [Nat.cast_one] at hbound

/-- An admissible interval is never changed by more than itself. -/
theorem possibleDifference_le {original splayPercent : UInt64} (ho : original ≤ kMaxQueryInterval)
    (hp : splayPercent ≤ 100) :
    (possibleDifference original splayPercent).toNat ≤ original.toNat := by
  have hsmall : original.toNat ≤ 604800 := UInt64.le_iff_toNat_le.mp ho
  have hsingle : single original.toNat = original.toNat := single_natCast (by omega)
  have hproduct : single original.toNat * percentToModifyBy splayPercent ≤ original.toNat := by
    rw [hsingle]
    exact mul_le_of_le_one_right (Nat.cast_nonneg _) (percentToModifyBy_le_one hp)
  have hnonneg : 0 ≤ single original.toNat * percentToModifyBy splayPercent :=
    mul_nonneg (single_nonneg (Nat.cast_nonneg _)) (percentToModifyBy_nonneg _)
  have hfloor : ⌊single (single original.toNat * percentToModifyBy splayPercent)⌋₊ ≤
      original.toNat :=
    Nat.floor_le_of_le (single_le_natCast hnonneg (by omega) hproduct)
  rw [possibleDifference, UInt64.toNat_ofNat']
  exact (Nat.mod_le _ _).trans hfloor

theorem splayBounds_spec {original : UInt64} (h : Admissible original) (splayPercent : UInt64) :
    1 ≤ (splayBounds original splayPercent).1.toNat ∧
      (splayBounds original splayPercent).1.toNat ≤ original.toNat ∧
      original.toNat ≤ (splayBounds original splayPercent).2.toNat ∧
      (splayBounds original splayPercent).2.toNat ≤ 2 * original.toNat := by
  have hlow : 1 ≤ original.toNat := UInt64.le_iff_toNat_le.mp h.1
  rw [splayBounds]
  by_cases hp : splayPercent = 0 ∨ splayPercent > 100
  · rw [if_pos hp]
    dsimp only
    omega
  · rw [if_neg hp]
    have hpercent : splayPercent ≤ 100 := UInt64.not_lt.mp (not_or.mp hp).2
    have hdifference := possibleDifference_le h.2 hpercent
    have hsmall : original.toNat ≤ 604800 := UInt64.le_iff_toNat_le.mp h.2
    have hsub : (original - possibleDifference original splayPercent).toNat =
        original.toNat - (possibleDifference original splayPercent).toNat :=
      UInt64.toNat_sub_of_le _ _ (UInt64.le_iff_toNat_le.mpr hdifference)
    have hadd : (original + possibleDifference original splayPercent).toNat =
        original.toNat + (possibleDifference original splayPercent).toNat := by
      rw [UInt64.toNat_add, Nat.mod_eq_of_lt (by omega)]
    have hmax : (max 1 (original - possibleDifference original splayPercent)).toNat =
        max 1 (original.toNat - (possibleDifference original splayPercent).toNat) := by
      have hdef : ∀ a : UInt64, max 1 a = if 1 ≤ a then a else 1 := fun _ => rfl
      rw [hdef, Nat.max_def, ← hsub, apply_ite UInt64.toNat]
      rfl
    rw [hmax, hadd]
    omega

/-- A value is drawn within its bounds. -/
theorem withinBounds_splayValue {draw : ℕ → UInt64 → UInt64 → UInt64} (hdraw : Draws draw)
    {original : UInt64} (h : Admissible original) (splayPercent : UInt64) (t : ℕ) :
    WithinBounds original splayPercent (splayValue (draw t) original splayPercent) := by
  obtain ⟨hone, hlow, hhigh, -⟩ := splayBounds_spec h splayPercent
  have hle : (splayBounds original splayPercent).1 ≤ (splayBounds original splayPercent).2 :=
    UInt64.le_iff_toNat_le.mpr (hlow.trans hhigh)
  have hbounds : (splayBounds original splayPercent).1 ≤
        splayValue (draw t) original splayPercent ∧
      splayValue (draw t) original splayPercent ≤ (splayBounds original splayPercent).2 := by
    rw [splayValue_eq]
    dsimp only
    split
    · exact ⟨hle, UInt64.le_refl _⟩
    · exact hdraw t _ _ hle
  have hleast : 1 ≤ (splayBounds original splayPercent).1 := UInt64.le_iff_toNat_le.mpr hone
  exact ⟨UInt64.le_trans hleast hbounds.1, hbounds⟩

/-- Without a choice there is one value within the bounds. -/
theorem WithinBounds.eq_of_fixed {original splayPercent a b : UInt64}
    (ha : WithinBounds original splayPercent a) (hb : WithinBounds original splayPercent b)
    (hfixed : (splayBounds original splayPercent).1 = (splayBounds original splayPercent).2) :
    a = b := by
  have heq : ∀ c, WithinBounds original splayPercent c →
      c = (splayBounds original splayPercent).2 := fun c hc =>
    UInt64.le_antisymm hc.2.2 (hfixed ▸ hc.2.1)
  rw [heq a ha, heq b hb]

/-! ### Keeping a value -/

/-- The value in a record, if it was drawn for the interval. -/
def restoredSplay (content : String) (interval : UInt64) : Option UInt64 :=
  match split content ":" with
  | [last_interval, last_splay] =>
      match stoll last_interval, stoll last_splay with
      | .ok last_interval, .ok last_splay =>
          if last_interval = interval.toInt64.toInt ∧ last_splay > 0 then
            some (UInt64.ofInt last_splay)
          else none
      | _, _ => none
  | _ => none

def splayRecord (interval splay : UInt64) : String :=
  toText interval.toNat ++ ":" ++ toText splay.toNat

def splayKey (name : String) : String := "interval." ++ name

def restoreSplayedValue (draw : UInt64 → UInt64 → UInt64) (splayPercent : UInt64) (name : String)
    (interval : UInt64) : Prog DbOp UInt64 := do
  let content ← readValue kPersistentSettings (splayKey name)
  match restoredSplay content interval with
  | some splay => return splay
  | none =>
      let splay := splayValue draw interval splayPercent
      let _ ← setDatabaseValue kPersistentSettings (splayKey name) (splayRecord interval splay)
      return splay

/-- The database and how many values were asked for. -/
structure SplayState where
  db : Database
  clock : ℕ

/-- The splayed interval of a query and the state after it. -/
def askSplay (draw : ℕ → UInt64 → UInt64 → UInt64) (splayPercent : UInt64) (name : String)
    (interval : UInt64) (st : SplayState) : UInt64 × SplayState :=
  let splayed := (restoreSplayedValue (draw st.clock) splayPercent name interval).run st.db
  (splayed.1, ⟨splayed.2, st.clock + 1⟩)

/-- The value that is restored for an interval under a name. -/
def recordedSplay (db : Database) (name : String) (interval : UInt64) : Option UInt64 :=
  restoredSplay ((lookup db kPersistentSettings (splayKey name)).getD "") interval

theorem split_splayRecord (interval splay : UInt64) :
    split (splayRecord interval splay) ":" = [toText interval.toNat, toText splay.toNat] := by
  have hcolon : (":" : String).toList = [':'] := by decide
  have hdigit : ∀ c ∈ (":" : String).toList, c.isDigit = false := by
    rw [hcolon]
    intro c hc
    obtain rfl := List.mem_singleton.mp hc
    rfl
  rw [splayRecord, split_append hcolon, split_toText hdigit, split_toText hdigit]
  rfl

/-- The signed readings of two numbers differ as they do. -/
theorem toInt_toInt64_inj {a b : UInt64} : a.toInt64.toInt = b.toInt64.toInt ↔ a = b := by
  rw [Int64.toInt_inj]
  exact ⟨fun h => congrArg Int64.toUInt64 h, congrArg _⟩

theorem toInt_toInt64 {a : UInt64} (h : a.toNat < 2 ^ 63) : a.toInt64.toInt = a.toNat := by
  apply BitVec.toInt_eq_toNat_of_lt
  have htoNat : a.toBitVec.toNat = a.toNat := rfl
  rw [UInt64.toBitVec_toInt64, htoNat]
  omega

theorem restoredSplay_splayRecord {interval splay : UInt64} (hinterval : interval.toNat < 2 ^ 63)
    (hsplay : splay.toNat < 2 ^ 63) (hpos : 0 < splay.toNat) (interval' : UInt64) :
    restoredSplay (splayRecord interval splay) interval' =
      if interval = interval' then some splay else none := by
  have hsame : (interval.toNat : ℤ) = interval'.toInt64.toInt ↔ interval = interval' := by
    rw [← toInt_toInt64 hinterval]
    exact toInt_toInt64_inj
  have hpos' : (splay.toNat : ℤ) > 0 := by exact_mod_cast hpos
  rw [restoredSplay, split_splayRecord]
  simp only [stoll_toText, hinterval, hsplay, if_true, hsame, hpos', and_true, ofInt_toNat]

theorem restoreSplayedValue_run (draw : UInt64 → UInt64 → UInt64) (splayPercent : UInt64)
    (name : String) (interval : UInt64) (db : Database) :
    (restoreSplayedValue draw splayPercent name interval).run db =
      match recordedSplay db name interval with
      | some splay => (splay, db)
      | none =>
          let splay := splayValue draw interval splayPercent
          (splay, Ephemeral.setValue db kPersistentSettings (splayKey name)
            (splayRecord interval splay)) := by
  have hdomain : kPersistentSettings ≠ "" := by decide
  rw [restoreSplayedValue, Prog.run_bind, run_readValue_of_ne_empty hdomain, recordedSplay]
  dsimp only
  split
  · rfl
  · rw [Prog.run_bind, setDatabaseValue, setDatabaseBatch, run_request hdomain]
    rfl

theorem splayKey_inj {a b : String} : splayKey a = splayKey b ↔ a = b :=
  String.append_right_inj _

/-- A record is for one interval. -/
theorem restoredSplay_other {content : String} {interval interval' splay : UInt64}
    (h : restoredSplay content interval = some splay) (hne : interval ≠ interval') :
    restoredSplay content interval' = none := by
  rw [restoredSplay] at h ⊢
  split at h
  · split at h
    · split at h
      · rename_i last_interval last_splay hlast hsplay hmatch
        have hother : ¬last_interval = interval'.toInt64.toInt := by
          rw [hmatch.1, toInt_toInt64_inj]
          exact hne
        simp [hother]
      · cases h
    · cases h
  · cases h

theorem recordedSplay_setValue (db : Database) (name name' content : String) (interval : UInt64) :
    recordedSplay (Ephemeral.setValue db kPersistentSettings (splayKey name) content) name'
        interval =
      if name = name' then restoredSplay content interval else recordedSplay db name' interval := by
  rw [recordedSplay, lookup_setValue]
  by_cases h : name = name'
  · rw [if_pos ⟨rfl, congrArg _ h⟩, if_pos h, Option.getD_some]
  · rw [if_neg fun hkey => h (splayKey_inj.mp hkey.2), if_neg h]
    rfl

/-- A value that is drawn is read back from its record. -/
theorem restoredSplay_drawn {draw : ℕ → UInt64 → UInt64 → UInt64} (hdraw : Draws draw)
    {interval : UInt64} (h : Admissible interval) (splayPercent : UInt64) (t : ℕ)
    (interval' : UInt64) :
    restoredSplay (splayRecord interval (splayValue (draw t) interval splayPercent)) interval' =
      if interval = interval' then some (splayValue (draw t) interval splayPercent)
      else none := by
  obtain ⟨hone, -, hhigh⟩ := withinBounds_splayValue hdraw h splayPercent t
  have hone' := UInt64.le_iff_toNat_le.mp hone
  have hhigh' := UInt64.le_iff_toNat_le.mp hhigh
  have hsmall : interval.toNat ≤ 604800 := UInt64.le_iff_toNat_le.mp h.2
  obtain ⟨-, -, -, hbound⟩ := splayBounds_spec h splayPercent
  exact restoredSplay_splayRecord (by omega) (by omega) hone' interval'

/-- Splayed intervals are recalled under the name of their query. -/
theorem recalls_askSplay {draw : ℕ → UInt64 → UInt64 → UInt64} (hdraw : Draws draw)
    (splayPercent : UInt64) :
    Recalls Admissible (askSplay draw splayPercent) (fun st => recordedSplay st.db)
      SplayState.clock fun t interval => splayValue (draw t) interval splayPercent where
  value name st _ := by
    rw [askSplay, restoreSplayedValue_run]
    cases recordedSplay st.db name _ <;> rfl
  same {interval} name st h := by
    rw [askSplay, restoreSplayedValue_run]
    cases hrecorded : recordedSplay st.db name interval with
    | some splay => exact hrecorded
    | none =>
        dsimp only
        rw [recordedSplay_setValue, if_pos rfl, restoredSplay_drawn hdraw h, if_pos rfl]
  other {interval interval'} name st h hne := by
    rw [askSplay, restoreSplayedValue_run]
    cases hrecorded : recordedSplay st.db name interval with
    | some splay => exact restoredSplay_other hrecorded hne
    | none =>
        dsimp only
        rw [recordedSplay_setValue, if_pos rfl, restoredSplay_drawn hdraw h, if_neg hne]
  frame {name name'} interval interval' st hne := by
    rw [askSplay, restoreSplayedValue_run]
    cases recordedSplay st.db name interval with
    | some splay => rfl
    | none => exact (recordedSplay_setValue _ _ _ _ _).trans (if_neg hne)
  tick _ _ _ := rfl

end Osquery.Config
