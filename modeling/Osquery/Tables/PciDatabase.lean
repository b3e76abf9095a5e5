import Osquery.Foundation.Separated
import Std.Data.ExtTreeMap

/-!
# The database of PCI identifiers

The constructor of the database reads `pci.ids` line by line. A comment is cut off, the position
of the first hexadecimal digit tells whether the line is about a vendor, a model or a subsystem,
and the fields stand at fixed offsets. The current vendor and the current model are pointers
into the database that later lines write through.

## Implementation notes

The entries never move while lines are read, so that a pointer is kept as the keys that lead to
its entry. What a line does not understand is logged and has no other effect: the functions for
the three kinds of lines give the text for the log.
-/

namespace Osquery.Tables.PciDatabase

open Foundation.Numeral

/-- A text, character by character. -/
abbrev Text := List Char

def kPciidsDeviceClassStartIndicator : Text := ['f', 'f', 'f', 'f']

/-- `kPciidsValidHexChars`. -/
def isValidHexChar (c : Char) : Bool :=
  ['0', '1', '2', '3', '4', '5', '6', '7', '8', '9', 'a', 'b', 'c', 'd', 'e', 'f'].contains c

def kPciidsCommentChar : Char := '#'

structure PciModel where
  id : Text
  desc : Text
  /-- By `<subsystem vendor id> <subsystem model id>`. -/
  subsystemInfo : Std.ExtTreeMap Text Text

structure PciVendor where
  id : Text
  name : Text
  models : Std.ExtTreeMap Text PciModel

/-- `db_`. -/
abbrev Db := Std.ExtTreeMap Text PciVendor

/-- The database while it is read, with the keys of the current vendor and model. -/
structure Reading where
  db : Db
  curVendor : Option Text
  curModel : Option (Text × Text)

namespace Reading

variable (st : Reading)

/-- What the pointer to the current vendor points to. -/
def vendorAt : Option (Text × PciVendor) :=
  st.curVendor.bind fun key => (st.db[key]?).map fun vendor => (key, vendor)

/-- What the pointer to the current model points to, with the vendor it belongs to. -/
def modelAt : Option (Text × PciVendor × Text × PciModel) :=
  st.curModel.bind fun keys => (st.db[keys.1]?).bind fun vendor =>
    (vendor.models[keys.2]?).map fun model => (keys.1, vendor, keys.2, model)

def addVendor (vendorId name : Text) : Reading where
  db := st.db.insert vendorId ⟨vendorId, name, ∅⟩
  curVendor := some vendorId
  curModel := st.curModel

def addModel (key : Text) (vendor : PciVendor) (modelId desc : Text) : Reading where
  db := st.db.insert key
    { vendor with models := vendor.models.insert modelId ⟨modelId, desc, ∅⟩ }
  curVendor := st.curVendor
  curModel := some (key, modelId)

def addSubsystem (key : Text) (vendor : PciVendor) (modelKey : Text) (model : PciModel)
    (pair info : Text) : Reading where
  db := st.db.insert key { vendor with
    models := vendor.models.insert modelKey
      { model with subsystemInfo := model.subsystemInfo.insert pair info } }
  curVendor := st.curVendor
  curModel := st.curModel

end Reading

/-- `boost::trim`. -/
def trim (text : Text) : Text := (text.dropWhile isSpace).rdropWhile isSpace

def parseVendor (line : Text) (st : Reading) : Except String Reading :=
  if line.length < 7 then
    .error "line is shorter than 7 characters"
  else if line.take 4 ∈ st.db then
    .error ("failed to save to db for line because key already exists:: " ++ String.ofList line)
  else
    .ok (st.addVendor (line.take 4) (line.drop 6))

def parseModel (line : Text) (st : Reading) : Except String Reading :=
  if line.length < 8 then
    .error "line is shorter than 8 characters"
  else
    match st.vendorAt with
    | none => .error ("cur_vendor is null for line: " ++ String.ofList line)
    | some (key, vendor) =>
      if (line.drop 1).take 4 ∈ vendor.models then
        .error ("failed to save to models db for line because key already exists:: " ++
          String.ofList line)
      else
        .ok (st.addModel key vendor ((line.drop 1).take 4) (line.drop 7))

def parseSubsystem (line : Text) (st : Reading) : Except String Reading :=
  if line.length < 12 then
    .error "line is shorter than 12 characters"
  else
    match st.modelAt with
    | none => .error ("cur_model is null for line: " ++ String.ofList line)
    | some (key, vendor, modelKey, model) =>
      if (line.drop 2).take 9 ∈ model.subsystemInfo then
        .error ("failed to save to subsystems db for line because key already exists: " ++
          String.ofList line)
      else
        .ok (st.addSubsystem key vendor modelKey model ((line.drop 2).take 9)
          (trim (line.drop 11)))

/-- One line, and whether reading goes on. The entry of the device classes is taken out again,
and ends the list. -/
def parseLine (line : Text) (st : Reading) : Reading × Bool :=
  match line.findIdx? isValidHexChar with
  | some 0 =>
    match parseVendor line st with
    | .error _ => (st, true)
    | .ok st' =>
      -- `cur_vendor->id`: an entry has its key as its id.
      if st'.curVendor = some kPciidsDeviceClassStartIndicator then
        ({ st' with db := st'.db.erase kPciidsDeviceClassStartIndicator }, false)
      else
        (st', true)
  | some 1 =>
    match parseModel line st with
    | .error _ => (st, true)
    | .ok st' => (st', true)
  | some 2 =>
    match parseSubsystem line st with
    | .error _ => (st, true)
    | .ok st' => (st', true)
  | _ => (st, true)

/-- A line without its comment and without white space at its end. -/
def stripped (line : Text) : Text :=
  (line.takeWhile fun c => c != kPciidsCommentChar).rdropWhile isSpace

/-- `std::getline` until it fails: a newline at the very end does not begin another line. -/
def getlines : Text → List Text
  | [] => []
  | c :: rest =>
    if c = '\n' then [] :: getlines rest
    else
      match getlines rest with
      | [] => [[c]]
      | line :: lines => (c :: line) :: lines

/-- The loop over the lines, and whether it ran to the end of the text. -/
def parseLines : List Text → Reading → Reading × Bool
  | [], st => (st, true)
  | line :: lines, st =>
    match parseLine (stripped line) st with
    | (st', true) => parseLines lines st'
    | (st', false) => (st', false)

/-- The database of a text. -/
def pciDB (text : Text) : Db := (parseLines (getlines text) ⟨∅, none, none⟩).1.db

def getVendorName (db : Db) (vendorId : Text) : Except String Text :=
  match db[vendorId]? with
  | none => .error "Vendor ID does not exist"
  | some vendor => .ok vendor.name

def getModel (db : Db) (vendorId modelId : Text) : Except String Text :=
  match db[vendorId]? with
  | none => .error "Vendor ID does not exist"
  | some vendor =>
    match vendor.models[modelId]? with
    | none => .error "Model ID does not exist"
    | some model => .ok model.desc

def getSubsystemInfo (db : Db) (vendorId modelId subsystemVendorId subsystemDeviceId : Text) :
    Except String Text :=
  match db[vendorId]? with
  | none => .error "Vendor ID does not exist"
  | some vendor =>
    match vendor.models[modelId]? with
    | none => .error "Model ID does not exist"
    | some model =>
      match model.subsystemInfo[subsystemVendorId ++ ' ' :: subsystemDeviceId]? with
      | none => .error ("Subsystem ID does not exist in system pci.ids: " ++
          String.ofList (subsystemVendorId ++ ' ' :: subsystemDeviceId))
      | some subsystem => .ok subsystem

/-! ### What the lookups find -/

theorem getVendorName_eq_ok_iff {db : Db} {vendorId name : Text} :
    getVendorName db vendorId = .ok name ↔
      ∃ vendor, db[vendorId]? = some vendor ∧ vendor.name = name := by
  rw [getVendorName]
  cases db[vendorId]? <;> simp

theorem getModel_eq_ok_iff {db : Db} {vendorId modelId desc : Text} :
    getModel db vendorId modelId = .ok desc ↔
      ∃ vendor, db[vendorId]? = some vendor ∧
        ∃ model, vendor.models[modelId]? = some model ∧ model.desc = desc := by
  rw [getModel]
  cases db[vendorId]? with
  | none => simp
  | some vendor =>
      dsimp only
      cases hm : vendor.models[modelId]? <;> simp [hm]

theorem getSubsystemInfo_eq_ok_iff {db : Db}
    {vendorId modelId subVendorId subDeviceId info : Text} :
    getSubsystemInfo db vendorId modelId subVendorId subDeviceId = .ok info ↔
      ∃ vendor, db[vendorId]? = some vendor ∧
        ∃ model, vendor.models[modelId]? = some model ∧
          model.subsystemInfo[subVendorId ++ ' ' :: subDeviceId]? = some info := by
  rw [getSubsystemInfo]
  cases db[vendorId]? with
  | none => simp
  | some vendor =>
      dsimp only
      cases hm : vendor.models[modelId]? with
      | none => simp [hm]
      | some model =>
          dsimp only
          cases hs : model.subsystemInfo[subVendorId ++ ' ' :: subDeviceId]? <;> simp [hm, hs]

/-! ### What a line does -/

section Lines

variable {line : Text} {st : Reading}

theorem addVendor_erase {vendorId name : Text} (hnew : vendorId ∉ st.db) :
    { st.addVendor vendorId name with db := (st.addVendor vendorId name).db.erase vendorId } =
      { st with curVendor := some vendorId } := by
  have herase : (st.db.insert vendorId ⟨vendorId, name, ∅⟩).erase vendorId = st.db := by
    apply Std.ExtTreeMap.ext_getElem?
    intro key
    rw [Std.ExtTreeMap.getElem?_erase, Std.ExtTreeMap.getElem?_insert]
    by_cases hk : compare vendorId key = Ordering.eq
    · rw [if_pos hk, ← Std.LawfulEqCmp.compare_eq_iff_eq.mp hk]
      exact (Std.ExtTreeMap.getElem?_eq_none hnew).symm
    · rw [if_neg hk, if_neg hk]
  rw [Reading.addVendor, herase]

theorem parseLine_vendor (h : line.findIdx? isValidHexChar = some 0) :
    parseLine line st =
      if line.length < 7 ∨ line.take 4 ∈ st.db then (st, true)
      else if line.take 4 = kPciidsDeviceClassStartIndicator then
        ({ st with curVendor := some kPciidsDeviceClassStartIndicator }, false)
      else (st.addVendor (line.take 4) (line.drop 6), true) := by
  rw [parseLine, h]
  change (match parseVendor line st with
    | .error _ => (st, true)
    | .ok st' =>
      if st'.curVendor = some kPciidsDeviceClassStartIndicator then
        ({ st' with db := st'.db.erase kPciidsDeviceClassStartIndicator }, false)
      else (st', true)) = _
  rw [parseVendor]
  by_cases hlen : line.length < 7
  · rw [if_pos hlen, if_pos (Or.inl hlen)]
  · rw [if_neg hlen]
    by_cases hold : line.take 4 ∈ st.db
    · rw [if_pos hold, if_pos (Or.inr hold)]
    · rw [if_neg hold, if_neg (not_or_intro hlen hold)]
      have hcur : (st.addVendor (line.take 4) (line.drop 6)).curVendor = some (line.take 4) := rfl
      by_cases hid : line.take 4 = kPciidsDeviceClassStartIndicator
      · rw [if_pos hid]
        dsimp only
        rw [if_pos (hcur.trans (congrArg some hid)), ← hid, addVendor_erase hold]
      · rw [if_neg hid]
        dsimp only
        rw [if_neg fun h => hid (Option.some.inj (hcur.symm.trans h))]

theorem parseLine_model (h : line.findIdx? isValidHexChar = some 1) :
    parseLine line st =
      match st.vendorAt with
      | none => (st, true)
      | some (key, vendor) =>
        if line.length < 8 ∨ (line.drop 1).take 4 ∈ vendor.models then (st, true)
        else (st.addModel key vendor ((line.drop 1).take 4) (line.drop 7), true) := by
  rw [parseLine, h]
  change (match parseModel line st with | .error _ => (st, true) | .ok st' => (st', true)) = _
  rw [parseModel]
  by_cases hlen : line.length < 8
  · rw [if_pos hlen]
    cases st.vendorAt with
    | none => rfl
    | some found => exact (if_pos (Or.inl hlen)).symm
  · rw [if_neg hlen]
    cases st.vendorAt with
    | none => rfl
    | some found =>
        dsimp only
        by_cases hold : (line.drop 1).take 4 ∈ found.2.models
        · rw [if_pos hold, if_pos (Or.inr hold)]
        · rw [if_neg hold, if_neg (not_or_intro hlen hold)]

theorem parseLine_subsystem (h : line.findIdx? isValidHexChar = some 2) :
    parseLine line st =
      match st.modelAt with
      | none => (st, true)
      | some (key, vendor, modelKey, model) =>
        if line.length < 12 ∨ (line.drop 2).take 9 ∈ model.subsystemInfo then (st, true)
        else
          (st.addSubsystem key vendor modelKey model ((line.drop 2).take 9) (trim (line.drop 11)),
            true) := by
  rw [parseLine, h]
  change (match parseSubsystem line st with | .error _ => (st, true) | .ok st' => (st', true)) = _
  rw [parseSubsystem]
  by_cases hlen : line.length < 12
  · rw [if_pos hlen]
    cases st.modelAt with
    | none => rfl
    | some found => exact (if_pos (Or.inl hlen)).symm
  · rw [if_neg hlen]
    cases st.modelAt with
    | none => rfl
    | some found =>
        dsimp only
        by_cases hold : (line.drop 2).take 9 ∈ found.2.2.2.subsystemInfo
        · rw [if_pos hold, if_pos (Or.inr hold)]
        · rw [if_neg hold, if_neg (not_or_intro hlen hold)]

theorem parseLine_other (h0 : line.findIdx? isValidHexChar ≠ some 0)
    (h1 : line.findIdx? isValidHexChar ≠ some 1) (h2 : line.findIdx? isValidHexChar ≠ some 2) :
    parseLine line st = (st, true) := by
  rw [parseLine]
  split
  · exact absurd ‹_› h0
  · exact absurd ‹_› h1
  · exact absurd ‹_› h2
  · rfl

end Lines

end Osquery.Tables.PciDatabase
