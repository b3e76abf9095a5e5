import Osquery.Core.Rows
import Osquery.Foundation.Separated

/-!
# The drives of an array

The disks of an array are asked for one by one. Each gives a row, with its slot if that is known,
and the slots that no disk has are given to the rows without one, in order; for those that are
left a row of its own is added.

## Implementation notes

What the drivers answer is an input, as are the constants of the Linux headers. An `int` is an
integer, except for the state of a disk, whose bits are read. A negative number of disks is no
size of a vector, which throws.
-/

namespace Osquery.MdTables.Drives

open Foundation.Numeral Foundation.Separated Osquery.Core.Rows

/-- The constants of the headers; a bit of the state may be missing. -/
structure Header where
  MD_SB_DISKS : ℕ
  MD_DISK_FAULTY : Option ℕ
  MD_DISK_ACTIVE : Option ℕ
  MD_DISK_SYNC : Option ℕ
  MD_DISK_REMOVED : Option ℕ
  MD_DISK_WRITEMOSTLY : Option ℕ
  MD_DISK_FAILFAST : Option ℕ
  MD_DISK_JOURNAL : Option ℕ
  MD_DISK_CANDIDATE : Option ℕ
  MD_DISK_CLUSTER_ADD : Option ℕ

structure DiskInfo where
  number : ℤ
  major : ℤ
  minor : ℤ
  raid_disk : ℤ
  state : Int32

/-- What is asked of the drivers; no result is a failure. -/
structure MDInterface where
  getPathByDevName : String → String
  /-- The number `raid_disks` of the array. -/
  getArrayInfo : String → Option ℤ
  getDiskInfo : String → ℕ → Option DiskInfo
  getDevName : ℤ → ℤ → String

/-- `std::to_string` of a signed integer. -/
def INTEGER (n : ℤ) : String := if n < 0 then "-" ++ toText n.natAbs else toText n.natAbs

variable (header : Header)

/-- The map of the bits, which is ordered. -/
def possibleStates : Std.ExtTreeMap ℕ String :=
  .ofList ([(header.MD_DISK_FAULTY, "faulty "), (header.MD_DISK_ACTIVE, "active "),
    (header.MD_DISK_SYNC, "sync "), (header.MD_DISK_REMOVED, "removed "),
    (header.MD_DISK_WRITEMOSTLY, "writemostly "), (header.MD_DISK_FAILFAST, "failfast "),
    (header.MD_DISK_JOURNAL, "journal "), (header.MD_DISK_CANDIDATE, "spare "),
    (header.MD_DISK_CLUSTER_ADD, "clusteradd ")].filterMap fun state =>
      state.1.map fun bit => (bit, state.2))

def getDiskStateStr (state : Int32) : String :=
  if state = 0 then "recovering"
  else
    trim (String.join ((possibleStates header).toList.filterMap fun ps =>
      if ((1 : Int32) <<< Int32.ofNat ps.1) &&& state ≠ 0 then some ps.2 else none))

variable (md : MDInterface) (arrayName : String)

/-- The row of a disk before its slot is known. -/
def diskRow (disk : DiskInfo) : Row :=
  (((∅ : Row).insert "md_device_name" arrayName).insert "drive_name"
    (md.getDevName disk.major disk.minor)).insert "state" (getDiskStateStr header disk.state)

/-- The rows, the slots without a disk, and the positions of the rows without a slot. -/
structure Walk where
  data : QueryData
  missingSlots : List ℕ
  removedSlots : List ℕ
  qdPos : ℕ

variable (raid_disks : ℤ)

def addDisk (walk : Walk) (disk : DiskInfo) : Walk :=
  if disk.major > 0 then
    let r := diskRow header md arrayName disk
    if disk.raid_disk ≥ 0 then
      { walk with
        data := walk.data ++ [r.insert "slot" (INTEGER disk.raid_disk)]
        missingSlots := walk.missingSlots.filter fun slot => (slot : ℤ) ≠ disk.raid_disk
        qdPos := walk.qdPos + 1 }
    else if disk.raid_disk < 0 ∧ disk.number < raid_disks then
      { walk with
        data := walk.data ++ [r.insert "slot" (INTEGER disk.number)]
        missingSlots := walk.missingSlots.filter fun slot => (slot : ℤ) ≠ disk.number
        qdPos := walk.qdPos + 1 }
    else
      { walk with
        data := walk.data ++ [r]
        removedSlots := walk.removedSlots ++ [walk.qdPos]
        qdPos := walk.qdPos + 1 }
  else walk

/-- A round of the loop over the indexes of disks. -/
def visit (path : String) (walk : Walk) (i : ℕ) : Walk :=
  match md.getDiskInfo path i with
  | none => walk
  | some disk => addDisk header md arrayName raid_disks walk disk

/-- The row for a slot that no disk has. -/
def unknownRow (slot : ℕ) : Row :=
  ((((∅ : Row).insert "md_device_name" arrayName).insert "drive_name" "unknown").insert "state"
    "removed").insert "slot" (INTEGER slot)

/-- The loop over the missing slots. -/
def fillSlots (data : QueryData) : (removedSlots missingSlots : List ℕ) → QueryData
  | _, [] => data
  | position :: removedSlots, slot :: missingSlots =>
      fillSlots (data.modify position fun row => row.insert "slot" (INTEGER slot)) removedSlots
        missingSlots
  | [], slot :: missingSlots => fillSlots (data ++ [unknownRow arrayName slot]) [] missingSlots

/-- The rows after those that are there already. -/
def getDrivesForArray (data : QueryData) : Option QueryData :=
  let path := md.getPathByDevName arrayName
  if path = "" then some data
  else
    match md.getArrayInfo path with
    | none => some data
    | some raid_disks =>
        if raid_disks < 0 then none
        else
          let walk := (List.range header.MD_SB_DISKS).foldl
            (visit header md arrayName raid_disks path)
            ⟨data, List.range raid_disks.toNat, [], data.length⟩
          some (fillSlots arrayName walk.data walk.removedSlots walk.missingSlots)

/-! ### The walk over the disks -/

/-- The slot that a disk has. -/
def slotOf (raid_disks : ℤ) (disk : DiskInfo) : Option ℤ :=
  if disk.raid_disk ≥ 0 then some disk.raid_disk
  else if disk.number < raid_disks then some disk.number
  else none

/-- The row that is added for a disk. -/
def driveRow (disk : DiskInfo) : Row :=
  match slotOf raid_disks disk with
  | none => diskRow header md arrayName disk
  | some slot => (diskRow header md arrayName disk).insert "slot" (INTEGER slot)

/-- The positions of the rows without a slot. -/
def unplaced (raid_disks : ℤ) : (start : ℕ) → List DiskInfo → List ℕ
  | _, [] => []
  | start, disk :: disks =>
      if slotOf raid_disks disk = none then start :: unplaced raid_disks (start + 1) disks
      else unplaced raid_disks (start + 1) disks

/-- The disks that are there, in the order of their indexes. -/
def presentDisks (path : String) (indexes : List ℕ) : List DiskInfo :=
  (indexes.filterMap (md.getDiskInfo path)).filter fun disk => 0 < disk.major

variable {header md arrayName raid_disks}

theorem addDisk_of_present {walk : Walk} {disk : DiskInfo} (h : 0 < disk.major) :
    addDisk header md arrayName raid_disks walk disk =
      ⟨walk.data ++ [driveRow header md arrayName raid_disks disk],
        walk.missingSlots.filter fun slot => slotOf raid_disks disk ≠ some (slot : ℤ),
        walk.removedSlots ++ unplaced raid_disks walk.qdPos [disk], walk.qdPos + 1⟩ := by
  have hclass : ∀ z : ℤ, (fun slot : ℕ => decide (some z ≠ some (slot : ℤ))) =
      fun slot : ℕ => decide ((slot : ℤ) ≠ z) := by
    intro z
    funext slot
    simp [eq_comm]
  rw [addDisk, if_pos h]
  by_cases hraid : disk.raid_disk ≥ 0
  · have hslot : slotOf raid_disks disk = some disk.raid_disk := if_pos hraid
    simp only [if_pos hraid, driveRow, unplaced, hslot, hclass, reduceCtorEq, if_false,
      List.append_nil]
  · by_cases hnumber : disk.number < raid_disks
    · have hslot : slotOf raid_disks disk = some disk.number := by
        rw [slotOf, if_neg hraid, if_pos hnumber]
      simp only [if_neg hraid, if_pos (And.intro (not_le.mp hraid) hnumber), driveRow, unplaced,
        hslot, hclass, reduceCtorEq, if_false, List.append_nil]
    · have hslot : slotOf raid_disks disk = none := by
        rw [slotOf, if_neg hraid, if_neg hnumber]
      simp only [if_neg hraid, hnumber, and_false, if_false, driveRow, unplaced, hslot, if_true]
      simp

/-- Failures and absent disks leave the walk as it is. -/
theorem foldl_visit (path : String) (indexes : List ℕ) (walk : Walk) :
    indexes.foldl (visit header md arrayName raid_disks path) walk =
      (presentDisks md path indexes).foldl (addDisk header md arrayName raid_disks) walk := by
  induction indexes generalizing walk with
  | nil => rfl
  | cons i indexes ih =>
      rw [List.foldl_cons, ih, presentDisks, presentDisks, List.filterMap_cons]
      cases hinfo : md.getDiskInfo path i with
      | none => rw [visit, hinfo]
      | some disk =>
          rw [visit, hinfo]
          by_cases hmajor : 0 < disk.major
          · rw [List.filter_cons_of_pos (by simpa using hmajor), List.foldl_cons]
          · have hsame : addDisk header md arrayName raid_disks walk disk = walk := if_neg hmajor
            rw [List.filter_cons_of_neg (by simpa using hmajor)]
            dsimp only
            rw [hsame]

theorem unplaced_cons (start : ℕ) (disk : DiskInfo) (disks : List DiskInfo) :
    unplaced raid_disks start (disk :: disks) =
      unplaced raid_disks start [disk] ++ unplaced raid_disks (start + 1) disks := by
  rw [unplaced, unplaced, unplaced]
  split <;> rfl

/-- What the walk has after some disks. -/
theorem foldl_addDisk (disks : List DiskInfo) (h : ∀ disk ∈ disks, 0 < disk.major) (walk : Walk) :
    disks.foldl (addDisk header md arrayName raid_disks) walk =
      ⟨walk.data ++ disks.map (driveRow header md arrayName raid_disks),
        walk.missingSlots.filter fun slot =>
          ∀ disk ∈ disks, slotOf raid_disks disk ≠ some (slot : ℤ),
        walk.removedSlots ++ unplaced raid_disks walk.qdPos disks,
        walk.qdPos + disks.length⟩ := by
  induction disks generalizing walk with
  | nil => simp [unplaced]
  | cons disk disks ih =>
      rw [List.forall_mem_cons] at h
      rw [List.foldl_cons, addDisk_of_present h.1, ih h.2,
        unplaced_cons walk.qdPos disk disks]
      simp only [List.map_cons, List.append_assoc, List.singleton_append, List.filter_filter,
        List.forall_mem_cons, List.length_cons, Bool.decide_and, Nat.add_assoc, Nat.add_comm 1]
      rw [Walk.mk.injEq]
      refine ⟨rfl, ?_, rfl, rfl⟩
      exact List.filter_congr fun slot _ => Bool.and_comm _ _

/-- A position without a slot is that of a disk without one. -/
theorem mem_unplaced_iff {start position : ℕ} {disks : List DiskInfo} :
    position ∈ unplaced raid_disks start disks ↔
      ∃ k disk, position = start + k ∧ disks[k]? = some disk ∧
        slotOf raid_disks disk = none := by
  induction disks generalizing start with
  | nil => simp [unplaced]
  | cons disk disks ih =>
      rw [unplaced_cons, List.mem_append, ih]
      constructor
      · rintro (hfirst | ⟨k, other, rfl, hk, hslot⟩)
        · rw [unplaced, unplaced] at hfirst
          split at hfirst
          · next hslot => exact ⟨0, disk, by simpa using hfirst, rfl, hslot⟩
          · cases hfirst
        · exact ⟨k + 1, other, by omega, by simpa using hk, hslot⟩
      · rintro ⟨k, other, rfl, hk, hslot⟩
        cases k with
        | zero =>
            obtain rfl := Option.some.inj hk
            refine Or.inl ?_
            rw [unplaced, if_pos hslot]
            exact List.mem_cons_self
        | succ k => exact Or.inr ⟨k, other, by omega, by simpa using hk, hslot⟩

theorem nodup_unplaced (start : ℕ) (disks : List DiskInfo) :
    (unplaced raid_disks start disks).Nodup := by
  induction disks generalizing start with
  | nil => exact List.nodup_nil
  | cons disk disks ih =>
      rw [unplaced]
      split
      · refine List.nodup_cons.mpr ⟨fun hmem => ?_, ih (start + 1)⟩
        obtain ⟨k, other, heq, -⟩ := mem_unplaced_iff.mp hmem
        omega
      · exact ih (start + 1)

/-! ### The slots that are left -/

/-- Slots given to the rows at some positions. -/
def setSlots (data : QueryData) (pairs : List (ℕ × ℕ)) : QueryData :=
  pairs.foldl (fun data pair =>
    data.modify pair.1 fun row => row.insert "slot" (INTEGER pair.2)) data

theorem fillSlots_nil (data : QueryData) (missing : List ℕ) :
    fillSlots arrayName data [] missing = data ++ missing.map (unknownRow arrayName) := by
  induction missing generalizing data with
  | nil => simp [fillSlots]
  | cons slot missing ih => rw [fillSlots, ih, List.map_cons, List.append_assoc,
      List.singleton_append]

/-- The rows without a slot get the first slots, and a row is added for each of the others. -/
theorem fillSlots_eq (data : QueryData) (removed missing : List ℕ) :
    fillSlots arrayName data removed missing =
      setSlots data (removed.zip missing) ++
        (missing.drop removed.length).map (unknownRow arrayName) := by
  induction removed generalizing data missing with
  | nil =>
      rw [fillSlots_nil]
      rfl
  | cons position removed ih =>
      cases missing with
      | nil => simp [fillSlots, setSlots]
      | cons slot missing =>
          rw [fillSlots, ih]
          rfl

theorem length_setSlots (data : QueryData) (pairs : List (ℕ × ℕ)) :
    (setSlots data pairs).length = data.length := by
  induction pairs generalizing data with
  | nil => rfl
  | cons pair pairs ih =>
      change (setSlots (data.modify pair.1 _) pairs).length = _
      rw [ih, List.length_modify]

/-- Rows at other positions stay as they are. -/
theorem getElem?_setSlots_of_not_mem {data : QueryData} {pairs : List (ℕ × ℕ)} {i : ℕ}
    (h : i ∉ pairs.map Prod.fst) : (setSlots data pairs)[i]? = data[i]? := by
  induction pairs generalizing data with
  | nil => rfl
  | cons pair pairs ih =>
      rw [List.map_cons, List.mem_cons, not_or] at h
      change (setSlots (data.modify pair.1 _) pairs)[i]? = _
      rw [ih h.2, List.getElem?_modify_ne _ _ (Ne.symm h.1)]

/-- A row that gets one slot has it. -/
theorem getElem?_setSlots_of_mem {data : QueryData} {pairs : List (ℕ × ℕ)} {i slot : ℕ}
    (hnodup : (pairs.map Prod.fst).Nodup) (h : (i, slot) ∈ pairs) :
    (setSlots data pairs)[i]? = data[i]?.map fun row => row.insert "slot" (INTEGER slot) := by
  induction pairs generalizing data with
  | nil => cases h
  | cons pair pairs ih =>
      rw [List.map_cons, List.nodup_cons] at hnodup
      change (setSlots (data.modify pair.1 _) pairs)[i]? = _
      rcases List.mem_cons.mp h with rfl | h
      · rw [getElem?_setSlots_of_not_mem hnodup.1, List.getElem?_modify_eq]
        rfl
      · have hne : pair.1 ≠ i := by
          rintro rfl
          exact hnodup.1 (List.mem_map.mpr ⟨_, h, rfl⟩)
        rw [ih hnodup.2 h, List.getElem?_modify_ne _ _ hne]

/-- A row keeps its other columns. -/
theorem exists_getElem?_setSlots {data : QueryData} {pairs : List (ℕ × ℕ)} {i : ℕ} {row : Row}
    (h : (setSlots data pairs)[i]? = some row) :
    ∃ row', data[i]? = some row' ∧ ∀ column ≠ "slot", row[column]? = row'[column]? := by
  induction pairs generalizing data with
  | nil => exact ⟨row, h, fun _ _ => rfl⟩
  | cons pair pairs ih =>
      have hlater : (setSlots (data.modify pair.1 fun row =>
          row.insert "slot" (INTEGER pair.2)) pairs)[i]? = some row := h
      obtain ⟨row', hrow', hcolumns⟩ := ih hlater
      by_cases hi : pair.1 = i
      · subst hi
        rw [List.getElem?_modify_eq, Option.map_eq_map, Option.map_eq_some_iff] at hrow'
        obtain ⟨row'', hrow'', rfl⟩ := hrow'
        refine ⟨row'', hrow'', fun column hcolumn => ?_⟩
        rw [hcolumns column hcolumn, Std.ExtTreeMap.getElem?_insert,
          if_neg (by simpa using Ne.symm hcolumn)]
      · rw [List.getElem?_modify_ne _ _ hi] at hrow'
        exact ⟨row', hrow', hcolumns⟩

/-- The rows before the first position stay as they are. -/
theorem take_setSlots {data rows : QueryData} {pairs : List (ℕ × ℕ)}
    (h : ∀ pair ∈ pairs, data.length ≤ pair.1) :
    (setSlots (data ++ rows) pairs).take data.length = data := by
  apply List.ext_getElem?
  intro i
  rw [List.getElem?_take]
  split
  · next hi =>
      have hmem : i ∉ pairs.map Prod.fst := by
        intro hmem
        obtain ⟨pair, hpair, rfl⟩ := List.mem_map.mp hmem
        exact absurd hi (Nat.not_lt.mpr (h pair hpair))
      rw [getElem?_setSlots_of_not_mem hmem, List.getElem?_append_left hi]
  · next hi => rw [List.getElem?_eq_none (Nat.not_lt.mp hi)]

theorem nodup_map_fst_zip {α β : Type} {l₁ : List α} (l₂ : List β) (h : l₁.Nodup) :
    ((l₁.zip l₂).map Prod.fst).Nodup := by
  induction l₁ generalizing l₂ with
  | nil => simp
  | cons a l₁ ih =>
      rw [List.nodup_cons] at h
      cases l₂ with
      | nil => simp
      | cons b l₂ =>
          rw [List.zip_cons_cons, List.map_cons, List.nodup_cons]
          refine ⟨fun hmem => h.1 ?_, ih l₂ h.2⟩
          obtain ⟨pair, hpair, rfl⟩ := List.mem_map.mp hmem
          exact (List.of_mem_zip hpair).1

/-! ### What is reported -/

/-- The columns of a row that say what drive it is about. -/
structure Names (row : Row) (arrayName drive_name state : String) : Prop where
  md_device_name : row["md_device_name"]? = some arrayName
  drive_name : row["drive_name"]? = some drive_name
  state : row["state"]? = some state

theorem Names.congr {row row' : Row} {arrayName drive_name state : String}
    (h : Names row' arrayName drive_name state)
    (hcolumns : ∀ column ≠ "slot", row[column]? = row'[column]?) :
    Names row arrayName drive_name state where
  md_device_name := by rw [hcolumns _ (by decide), h.md_device_name]
  drive_name := by rw [hcolumns _ (by decide), h.drive_name]
  state := by rw [hcolumns _ (by decide), h.state]

theorem getElem?_insert_slot (row : Row) (slot : ℤ) :
    ∀ column ≠ "slot", (row.insert "slot" (INTEGER slot))[column]? = row[column]? := by
  intro column hcolumn
  rw [Std.ExtTreeMap.getElem?_insert, if_neg (by simpa using Ne.symm hcolumn)]

theorem names_diskRow (disk : DiskInfo) :
    Names (diskRow header md arrayName disk) arrayName (md.getDevName disk.major disk.minor)
      (getDiskStateStr header disk.state) := by
  constructor <;> simp [diskRow, Std.ExtTreeMap.getElem_insert]

theorem names_driveRow (disk : DiskInfo) :
    Names (driveRow header md arrayName raid_disks disk) arrayName
      (md.getDevName disk.major disk.minor) (getDiskStateStr header disk.state) := by
  rw [driveRow]
  split
  · exact names_diskRow disk
  · next slot _ => exact (names_diskRow disk).congr (getElem?_insert_slot _ slot)

theorem slot_driveRow (disk : DiskInfo) :
    (driveRow header md arrayName raid_disks disk)["slot"]? =
      (slotOf raid_disks disk).map INTEGER := by
  rw [driveRow]
  split
  · next hslot => simp [hslot, diskRow]
  · next slot hslot => rw [hslot, Std.ExtTreeMap.getElem?_insert_self, Option.map_some]

theorem names_unknownRow (slot : ℕ) :
    Names (unknownRow arrayName slot) arrayName "unknown" "removed" := by
  constructor <;> simp [unknownRow, Std.ExtTreeMap.getElem_insert]

theorem slot_unknownRow (slot : ℕ) :
    (unknownRow arrayName slot)["slot"]? = some (INTEGER slot) :=
  Std.ExtTreeMap.getElem?_insert_self

theorem INTEGER_inj {z : ℤ} {slot : ℕ} : INTEGER z = INTEGER slot ↔ z = slot := by
  refine ⟨fun h => ?_, fun h => by rw [h]⟩
  rw [INTEGER, INTEGER, if_neg (by omega : ¬(slot : ℤ) < 0), Int.natAbs_natCast] at h
  split at h
  · have hminus : '-' ∈ (toText slot).toList := by
      rw [← h]
      simp
    exact absurd (isDigit_of_mem_toText hminus) (by decide)
  · next hz =>
      rw [toText_inj] at h
      omega

section Report

variable (header md arrayName raid_disks) (disks : List DiskInfo)

/-- Rows for the disks, and rows for the slots that no other row has. -/
structure Reports (drives unknowns : QueryData) : Prop where
  drives_named : List.Forall₂ (fun disk row =>
    Names row arrayName (md.getDevName disk.major disk.minor)
      (getDiskStateStr header disk.state)) disks drives
  unknowns_named : ∀ row ∈ unknowns, Names row arrayName "unknown" "removed" ∧ row["slot"]?.isSome
  covered : ∀ slot : ℕ, (slot : ℤ) < raid_disks →
    ∃ row ∈ drives ++ unknowns, row["slot"]? = some (INTEGER slot)
  alone : ∀ i j row other, drives.length ≤ i → i ≠ j → (drives ++ unknowns)[i]? = some row →
    (drives ++ unknowns)[j]? = some other → row["slot"]? ≠ other["slot"]?

end Report

/-- The slots that no disk has. -/
def missingSlots (raid_disks : ℤ) (disks : List DiskInfo) : List ℕ :=
  (List.range raid_disks.toNat).filter fun slot =>
    ∀ disk ∈ disks, slotOf raid_disks disk ≠ some (slot : ℤ)

theorem nodup_missingSlots (disks : List DiskInfo) : (missingSlots raid_disks disks).Nodup :=
  List.nodup_range.filter _

theorem mem_missingSlots {disks : List DiskInfo} {slot : ℕ} :
    slot ∈ missingSlots raid_disks disks ↔
      (slot : ℤ) < raid_disks ∧ ∀ disk ∈ disks, slotOf raid_disks disk ≠ some (slot : ℤ) := by
  rw [missingSlots, List.mem_filter, List.mem_range, decide_eq_true_eq]
  exact and_congr_left' (by omega)

/-- The rows of the disks, and those before them, when the missing slots were given away. -/
def placedRows (header : Header) (md : MDInterface) (arrayName : String) (raid_disks : ℤ)
    (disks : List DiskInfo) (data : QueryData) : QueryData :=
  setSlots (data ++ disks.map (driveRow header md arrayName raid_disks))
    ((unplaced raid_disks data.length disks).zip (missingSlots raid_disks disks))

/-- The slots for which a row is added. -/
def slotsLeft (raid_disks : ℤ) (disks : List DiskInfo) (start : ℕ) : List ℕ :=
  (missingSlots raid_disks disks).drop (unplaced raid_disks start disks).length

section Placed

variable {disks : List DiskInfo} {data : QueryData} {k : ℕ}

theorem nodup_places : (((unplaced raid_disks data.length disks).zip
    (missingSlots raid_disks disks)).map Prod.fst).Nodup :=
  nodup_map_fst_zip _ (nodup_unplaced _ _)

theorem getElem?_rows (k : ℕ) :
    (data ++ disks.map (driveRow header md arrayName raid_disks))[data.length + k]? =
      disks[k]?.map (driveRow header md arrayName raid_disks) := by
  rw [List.getElem?_append_right (Nat.le_add_right _ _), Nat.add_sub_cancel_left,
    List.getElem?_map]

/-- The row of a disk at a position that no slot was given to. -/
theorem placedRows_of_not_mem (h : data.length + k ∉ ((unplaced raid_disks data.length disks).zip
    (missingSlots raid_disks disks)).map Prod.fst) :
    (placedRows header md arrayName raid_disks disks data)[data.length + k]? =
      disks[k]?.map (driveRow header md arrayName raid_disks) := by
  rw [placedRows, getElem?_setSlots_of_not_mem h, getElem?_rows]

/-- The row of a disk at a position that a slot was given to. -/
theorem placedRows_of_mem {slot : ℕ} (h : (data.length + k, slot) ∈
    (unplaced raid_disks data.length disks).zip (missingSlots raid_disks disks)) :
    (placedRows header md arrayName raid_disks disks data)[data.length + k]? =
      disks[k]?.map fun disk =>
        (driveRow header md arrayName raid_disks disk).insert "slot" (INTEGER slot) := by
  rw [placedRows, getElem?_setSlots_of_mem nodup_places h, getElem?_rows, Option.map_map]
  rfl

/-- Every disk keeps a row with its name and state. -/
theorem forall₂_drives :
    List.Forall₂ (fun disk row => Names row arrayName (md.getDevName disk.major disk.minor)
        (getDiskStateStr header disk.state)) disks
      ((placedRows header md arrayName raid_disks disks data).drop data.length) := by
  rw [List.forall₂_iff_get]
  refine ⟨by simp [placedRows, length_setSlots], fun k hk hk' => ?_⟩
  have hrow : (placedRows header md arrayName raid_disks disks data)[data.length + k]? =
      some (((placedRows header md arrayName raid_disks disks data).drop data.length).get
        ⟨k, hk'⟩) := by
    rw [← List.getElem?_drop, List.getElem?_eq_getElem hk']
    rfl
  obtain ⟨row', hrow', hcolumns⟩ := exists_getElem?_setSlots hrow
  rw [getElem?_rows, List.getElem?_eq_getElem hk, Option.map_some, Option.some.injEq] at hrow'
  subst hrow'
  exact (names_driveRow _).congr hcolumns

/-- The slot of a row of a disk is its own or one of the missing ones that were given away. -/
theorem slot_cases {row : Row}
    (h : ((placedRows header md arrayName raid_disks disks data).drop data.length)[k]? =
      some row) :
    row["slot"]? = none ∨
      (∃ disk ∈ disks, ∃ z, slotOf raid_disks disk = some z ∧
        row["slot"]? = some (INTEGER z)) ∨
      ∃ slot ∈ (missingSlots raid_disks disks).take
          (unplaced raid_disks data.length disks).length,
        row["slot"]? = some (INTEGER slot) := by
  rw [List.getElem?_drop] at h
  by_cases hmem : data.length + k ∈ ((unplaced raid_disks data.length disks).zip
      (missingSlots raid_disks disks)).map Prod.fst
  · obtain ⟨⟨position, slot⟩, hpair, hposition⟩ := List.mem_map.mp hmem
    obtain rfl : position = data.length + k := hposition
    rw [placedRows_of_mem hpair, Option.map_eq_some_iff] at h
    obtain ⟨disk, -, rfl⟩ := h
    obtain ⟨m, hm⟩ := List.mem_iff_getElem?.mp hpair
    obtain ⟨hposition, hslot⟩ := List.getElem?_zip_eq_some.mp hm
    have hlt := (List.getElem?_eq_some_iff.mp hposition).1
    refine Or.inr (Or.inr ⟨slot, ?_, Std.ExtTreeMap.getElem?_insert_self⟩)
    refine List.mem_of_getElem? (i := m) ?_
    rw [List.getElem?_take, if_pos hlt, hslot]
  · rw [placedRows_of_not_mem hmem, Option.map_eq_some_iff] at h
    obtain ⟨disk, hdisk, rfl⟩ := h
    rw [slot_driveRow]
    cases hslot : slotOf raid_disks disk with
    | none => exact Or.inl rfl
    | some z => exact Or.inr (Or.inl ⟨disk, List.mem_of_getElem? hdisk, z, hslot, rfl⟩)

/-- Every slot is the slot of a row of a disk, or a row is added for it. -/
theorem covers {slot : ℕ} (hslot : (slot : ℤ) < raid_disks) :
    ∃ row ∈ (placedRows header md arrayName raid_disks disks data).drop data.length ++
        (slotsLeft raid_disks disks data.length).map (unknownRow arrayName),
      row["slot"]? = some (INTEGER slot) := by
  by_cases htaken : ∃ disk ∈ disks, slotOf raid_disks disk = some (slot : ℤ)
  · obtain ⟨disk, hdisk, hplace⟩ := htaken
    obtain ⟨k, hk⟩ := List.mem_iff_getElem?.mp hdisk
    have hmem : data.length + k ∉ ((unplaced raid_disks data.length disks).zip
        (missingSlots raid_disks disks)).map Prod.fst := by
      intro hmem
      obtain ⟨pair, hpair, hposition⟩ := List.mem_map.mp hmem
      have hunplaced := (List.of_mem_zip hpair).1
      rw [hposition] at hunplaced
      obtain ⟨k', other, heq, hk', hnone⟩ := mem_unplaced_iff.mp hunplaced
      obtain rfl : k = k' := by omega
      rw [hk] at hk'
      rw [← Option.some.inj hk', hplace] at hnone
      cases hnone
    refine ⟨driveRow header md arrayName raid_disks disk, List.mem_append_left _ ?_, ?_⟩
    · refine List.mem_of_getElem? (i := k) ?_
      rw [List.getElem?_drop, placedRows_of_not_mem hmem, hk, Option.map_some]
    · rw [slot_driveRow, hplace, Option.map_some]
  · have hmissing : slot ∈ missingSlots raid_disks disks :=
      mem_missingSlots.mpr ⟨hslot, fun disk hdisk hplace => htaken ⟨disk, hdisk, hplace⟩⟩
    obtain ⟨m, hm⟩ := List.mem_iff_getElem?.mp hmissing
    by_cases hgiven : m < (unplaced raid_disks data.length disks).length
    · obtain ⟨k, disk, hposition, hk, -⟩ := mem_unplaced_iff.mp (List.getElem_mem hgiven)
      have hpair : (data.length + k, slot) ∈ (unplaced raid_disks data.length disks).zip
          (missingSlots raid_disks disks) := by
        refine List.mem_of_getElem? (i := m) (List.getElem?_zip_eq_some.mpr ⟨?_, hm⟩)
        rw [List.getElem?_eq_getElem hgiven, hposition]
      refine ⟨(driveRow header md arrayName raid_disks disk).insert "slot" (INTEGER slot),
        List.mem_append_left _ ?_, Std.ExtTreeMap.getElem?_insert_self⟩
      refine List.mem_of_getElem? (i := k) ?_
      rw [List.getElem?_drop, placedRows_of_mem hpair, hk, Option.map_some]
    · refine ⟨unknownRow arrayName slot, List.mem_append_right _ ?_, slot_unknownRow slot⟩
      refine List.mem_map_of_mem (List.mem_of_getElem?
        (i := m - (unplaced raid_disks data.length disks).length) ?_)
      rw [slotsLeft, List.getElem?_drop, Nat.add_sub_cancel' (Nat.not_lt.mp hgiven), hm]

/-- An added row has a slot that is left, by its position. -/
theorem slot_added {drives : QueryData} {slots : List ℕ} {row : Row} (hk : drives.length ≤ k)
    (h : (drives ++ slots.map (unknownRow arrayName))[k]? = some row) :
    ∃ slot, slots[k - drives.length]? = some slot ∧ row["slot"]? = some (INTEGER slot) := by
  rw [List.getElem?_append_right hk, List.getElem?_map, Option.map_eq_some_iff] at h
  obtain ⟨slot, hslot, rfl⟩ := h
  exact ⟨slot, hslot, slot_unknownRow slot⟩

/-- The slot of an added row is that of no other row. -/
theorem slots_alone {drives : QueryData} {i j : ℕ} {row other : Row}
    (hdrives : drives = (placedRows header md arrayName raid_disks disks data).drop data.length)
    (hi : drives.length ≤ i) (hne : i ≠ j)
    (hrow : (drives ++ (slotsLeft raid_disks disks data.length).map
      (unknownRow arrayName))[i]? = some row)
    (hother : (drives ++ (slotsLeft raid_disks disks data.length).map
      (unknownRow arrayName))[j]? = some other) :
    row["slot"]? ≠ other["slot"]? := by
  have hnodup : (missingSlots raid_disks disks).Nodup := nodup_missingSlots disks
  obtain ⟨slot, hslot, hrowslot⟩ := slot_added hi hrow
  have hleft := List.mem_of_getElem? hslot
  rw [hrowslot]
  by_cases hj : drives.length ≤ j
  · obtain ⟨slot', hslot', hotherslot⟩ := slot_added hj hother
    rw [hotherslot, ne_eq, Option.some.injEq, INTEGER_inj]
    intro heq
    obtain rfl : slot = slot' := by omega
    have hsame := (List.getElem?_inj (List.getElem?_eq_some_iff.mp hslot).1
      (hnodup.sublist (List.drop_sublist _ _))).mp (hslot.trans hslot'.symm)
    omega
  · rw [List.getElem?_append_left (Nat.not_le.mp hj), hdrives] at hother
    rcases slot_cases hother with hnone | ⟨disk, hdisk, z, hz, heq⟩ | ⟨slot', hslot', heq⟩
    · rw [hnone]
      exact Option.some_ne_none _
    · rw [heq, ne_eq, Option.some.injEq, eq_comm, INTEGER_inj]
      rintro rfl
      exact (mem_missingSlots.mp (List.mem_of_mem_drop hleft)).2 disk hdisk hz
    · rw [heq, ne_eq, Option.some.injEq, INTEGER_inj]
      intro hsame
      obtain rfl : slot = slot' := by omega
      exact List.disjoint_take_drop hnodup le_rfl hslot' hleft

theorem take_placedRows :
    (placedRows header md arrayName raid_disks disks data).take data.length = data := by
  refine take_setSlots ?_
  rintro ⟨position, slot⟩ hpair
  obtain ⟨k, disk, rfl, -⟩ := mem_unplaced_iff.mp (List.of_mem_zip hpair).1
  exact Nat.le_add_right _ _

end Placed

/-- Every slot and every disk is reported: a row for each disk, in order, and rows for the slots
that no other row has. -/
theorem drives_reported {header : Header} {md : MDInterface} {arrayName : String} {raid_disks : ℤ}
    (hpath : md.getPathByDevName arrayName ≠ "")
    (harray : md.getArrayInfo (md.getPathByDevName arrayName) = some raid_disks)
    (hsize : 0 ≤ raid_disks) (data : QueryData) :
    ∃ drives unknowns,
      getDrivesForArray header md arrayName data = some (data ++ (drives ++ unknowns)) ∧
        Reports header md arrayName raid_disks
          (presentDisks md (md.getPathByDevName arrayName) (List.range header.MD_SB_DISKS))
          drives unknowns := by
  generalize hdisks : presentDisks md (md.getPathByDevName arrayName)
    (List.range header.MD_SB_DISKS) = disks
  have hpresent : ∀ disk ∈ disks, 0 < disk.major := by
    intro disk hdisk
    rw [← hdisks, presentDisks, List.mem_filter, decide_eq_true_eq] at hdisk
    exact hdisk.2
  refine ⟨(placedRows header md arrayName raid_disks disks data).drop data.length,
    (slotsLeft raid_disks disks data.length).map (unknownRow arrayName), ?_, ?_⟩
  · rw [getDrivesForArray]
    simp only
    rw [if_neg hpath, harray]
    simp only
    rw [if_neg (not_lt.mpr hsize), foldl_visit, hdisks, foldl_addDisk disks hpresent]
    simp only [List.nil_append]
    rw [← missingSlots, fillSlots_eq, ← placedRows, ← slotsLeft, Option.some.injEq,
      ← List.append_assoc]
    have hsplit := List.take_append_drop data.length
      (placedRows header md arrayName raid_disks disks data)
    rw [take_placedRows] at hsplit
    rw [hsplit]
  · constructor
    · exact forall₂_drives
    · intro row hrow
      obtain ⟨slot, -, rfl⟩ := List.mem_map.mp hrow
      exact ⟨names_unknownRow slot, by rw [slot_unknownRow]; rfl⟩
    · exact fun slot hslot => covers hslot
    · intro i j row other hi hne hrow hother
      exact slots_alone rfl hi hne hrow hother

/-- The constants as they are usually defined. -/
def usualHeader : Header where
  MD_SB_DISKS := 27
  MD_DISK_FAULTY := some 0
  MD_DISK_ACTIVE := some 1
  MD_DISK_SYNC := some 2
  MD_DISK_REMOVED := some 3
  MD_DISK_WRITEMOSTLY := some 9
  MD_DISK_FAILFAST := some 10
  MD_DISK_JOURNAL := some 18
  MD_DISK_CANDIDATE := some 5
  MD_DISK_CLUSTER_ADD := some 4

/-- An array of three disks, one of which is faulty and one of which is gone. -/
def degradedArray : MDInterface where
  getPathByDevName name := "/dev/" ++ name
  getArrayInfo _ := some 3
  getDiskInfo _ i :=
    if i = 0 then some ⟨0, 8, 1, 0, 6⟩
    else if i = 5 then some ⟨5, 8, 17, -1, 1⟩
    else none
  getDevName _ minor := if minor = 1 then "/dev/sda1" else "/dev/sdb1"

theorem drives_reported_degraded :
    ∃ drives unknowns,
      getDrivesForArray usualHeader degradedArray "md0" [] = some ([] ++ (drives ++ unknowns)) ∧
        Reports usualHeader degradedArray "md0" 3
          (presentDisks degradedArray "/dev/md0" (List.range 27)) drives unknowns :=
  drives_reported (by decide) rfl (by decide) []

end Osquery.MdTables.Drives
