import Osquery.Tables.PciDatabase

/-!
# What a database answers

A question asks for the name of a vendor, for the description of a model, or for the subsystem
of a model with a pair of ids. A sheet has the answers, each written once, and the places where
the next model and the next subsystem are written. Reading lines on a sheet gives the answers of
the database that the constructor builds.
-/

namespace Osquery.Tables.PciDatabase

inductive Key
  | vendor (id : Text)
  | model (vendorId id : Text)
  | subsystem (vendorId modelId pair : Text)
  deriving DecidableEq

namespace Key

def vendor? : Key → Option Text
  | vendor id => some id
  | _ => none

def model? : Key → Option (Text × Text)
  | model vendorId id => some (vendorId, id)
  | _ => none

/-- The question about the entry of the device classes. -/
def deviceClasses : Key := vendor kPciidsDeviceClassStartIndicator

end Key

/-- A question with its answer. -/
abbrev Entry := Key × Text

/-- The answer of a database. -/
def answer (db : Db) : Key → Option Text
  | .vendor id => (db[id]?).map PciVendor.name
  | .model vendorId id => ((db[vendorId]?).bind fun vendor => vendor.models[id]?).map PciModel.desc
  | .subsystem vendorId modelId pair =>
    ((db[vendorId]?).bind fun vendor => vendor.models[modelId]?).bind fun model =>
      model.subsystemInfo[pair]?

structure Sheet where
  answers : Key → Option Text
  curVendor : Option Text
  curModel : Option (Text × Text)

namespace Sheet

def blank : Sheet := ⟨fun _ => none, none, none⟩

/-- A vendor or a model is the place for what is written after it. -/
def write (s : Sheet) (e : Entry) : Sheet where
  answers := Function.update s.answers e.1 (some e.2)
  curVendor := e.1.vendor?.or s.curVendor
  curModel := e.1.model?.or s.curModel

theorem answers_write_self (s : Sheet) (e : Entry) : (s.write e).answers e.1 = some e.2 :=
  Function.update_self _ _ _

theorem answers_write_of_ne {s : Sheet} {e : Entry} {key : Key} (h : key ≠ e.1) :
    (s.write e).answers key = s.answers key :=
  Function.update_of_ne h _ _

end Sheet

/-- The entry that a line makes after a vendor and a model. -/
def entryOf (line : Text) (curVendor : Option Text) (curModel : Option (Text × Text)) :
    Option Entry :=
  match line.findIdx? isValidHexChar with
  | some 0 => if line.length < 7 then none else some (.vendor (line.take 4), line.drop 6)
  | some 1 =>
    if line.length < 8 then none
    else curVendor.map fun key => (.model key ((line.drop 1).take 4), line.drop 7)
  | some 2 =>
    if line.length < 12 then none
    else curModel.map fun keys =>
      (.subsystem keys.1 keys.2 ((line.drop 2).take 9), trim (line.drop 11))
  | _ => none

namespace Sheet

/-- A line is written when its question has no answer. The device classes end the list. -/
def read (s : Sheet) (line : Text) : Sheet × Bool :=
  match entryOf line s.curVendor s.curModel with
  | none => (s, true)
  | some e =>
    if (s.answers e.1).isSome then (s, true)
    else if e.1 = Key.deviceClasses then (s, false)
    else (s.write e, true)

def readLines (s : Sheet) : List Text → Sheet × Bool
  | [] => (s, true)
  | line :: lines =>
    match s.read (stripped line) with
    | (s', true) => s'.readLines lines
    | (s', false) => (s', false)

end Sheet

namespace Sheet

variable {s : Sheet} {line : Text} {e : Entry}

theorem read_of_none (h : entryOf line s.curVendor s.curModel = none) :
    s.read line = (s, true) := by
  rw [read, h]

theorem read_of_answered (h : entryOf line s.curVendor s.curModel = some e) {name : Text}
    (hanswer : s.answers e.1 = some name) : s.read line = (s, true) := by
  rw [read, h]
  dsimp only
  rw [hanswer]
  rfl

theorem read_of_deviceClasses (h : entryOf line s.curVendor s.curModel = some e)
    (hanswer : s.answers e.1 = none) (hkey : e.1 = Key.deviceClasses) :
    s.read line = (s, false) := by
  rw [read, h]
  dsimp only
  rw [hanswer, if_pos hkey]
  rfl

theorem read_of_new (h : entryOf line s.curVendor s.curModel = some e)
    (hanswer : s.answers e.1 = none) (hkey : e.1 ≠ Key.deviceClasses) :
    s.read line = (s.write e, true) := by
  rw [read, h]
  dsimp only
  rw [hanswer, if_neg hkey]
  rfl

end Sheet

/-! ### The answers of a database after an addition -/

section Additions

variable {st : Reading}

theorem answer_addVendor {id name : Text} (hnew : id ∉ st.db) :
    answer (st.addVendor id name).db =
      Function.update (answer st.db) (.vendor id) (some name) := by
  have hnone : st.db[id]? = none := Std.ExtTreeMap.getElem?_eq_none hnew
  funext key
  cases key with
  | vendor k =>
      by_cases hk : id = k
      · subst k
        rw [Function.update_self]
        simp [answer, Reading.addVendor]
      · rw [Function.update_of_ne fun h => hk (Key.vendor.inj h).symm]
        simp [answer, Reading.addVendor, Std.ExtTreeMap.getElem?_insert, hk]
  | model k m =>
      rw [Function.update_of_ne Key.noConfusion]
      by_cases hk : id = k
      · subst k
        simp [answer, Reading.addVendor, hnone]
      · simp [answer, Reading.addVendor, Std.ExtTreeMap.getElem?_insert, hk]
  | subsystem k m p =>
      rw [Function.update_of_ne Key.noConfusion]
      by_cases hk : id = k
      · subst k
        simp [answer, Reading.addVendor, hnone]
      · simp [answer, Reading.addVendor, Std.ExtTreeMap.getElem?_insert, hk]

theorem answer_addModel {key id desc : Text} {vendor : PciVendor}
    (hv : st.db[key]? = some vendor) (hnew : id ∉ vendor.models) :
    answer (st.addModel key vendor id desc).db =
      Function.update (answer st.db) (.model key id) (some desc) := by
  have hnone : vendor.models[id]? = none := Std.ExtTreeMap.getElem?_eq_none hnew
  funext q
  cases q with
  | vendor k =>
      rw [Function.update_of_ne Key.noConfusion]
      by_cases hk : key = k
      · subst k
        simp [answer, Reading.addModel, hv]
      · simp [answer, Reading.addModel, Std.ExtTreeMap.getElem?_insert, hk]
  | model k m =>
      by_cases hk : key = k
      · subst k
        by_cases hm : id = m
        · subst m
          rw [Function.update_self]
          simp [answer, Reading.addModel]
        · rw [Function.update_of_ne fun h => hm (Key.model.inj h).2.symm]
          simp [answer, Reading.addModel, hv, Std.ExtTreeMap.getElem?_insert, hm]
      · rw [Function.update_of_ne fun h => hk (Key.model.inj h).1.symm]
        simp [answer, Reading.addModel, Std.ExtTreeMap.getElem?_insert, hk]
  | subsystem k m p =>
      rw [Function.update_of_ne Key.noConfusion]
      by_cases hk : key = k
      · subst k
        by_cases hm : id = m
        · subst m
          simp [answer, Reading.addModel, hv, hnone]
        · simp [answer, Reading.addModel, hv, Std.ExtTreeMap.getElem?_insert, hm]
      · simp [answer, Reading.addModel, Std.ExtTreeMap.getElem?_insert, hk]

theorem answer_addSubsystem {key modelKey pair info : Text} {vendor : PciVendor}
    {model : PciModel} (hv : st.db[key]? = some vendor)
    (hm : vendor.models[modelKey]? = some model) :
    answer (st.addSubsystem key vendor modelKey model pair info).db =
      Function.update (answer st.db) (.subsystem key modelKey pair) (some info) := by
  funext q
  cases q with
  | vendor k =>
      rw [Function.update_of_ne Key.noConfusion]
      by_cases hk : key = k
      · subst k
        simp [answer, Reading.addSubsystem, hv]
      · simp [answer, Reading.addSubsystem, Std.ExtTreeMap.getElem?_insert, hk]
  | model k m =>
      rw [Function.update_of_ne Key.noConfusion]
      by_cases hk : key = k
      · subst k
        by_cases hmk : modelKey = m
        · subst m
          simp [answer, Reading.addSubsystem, hv, hm]
        · simp [answer, Reading.addSubsystem, hv, Std.ExtTreeMap.getElem?_insert, hmk]
      · simp [answer, Reading.addSubsystem, Std.ExtTreeMap.getElem?_insert, hk]
  | subsystem k m p =>
      by_cases hk : key = k ∧ modelKey = m
      · obtain ⟨rfl, rfl⟩ := hk
        by_cases hp : pair = p
        · subst p
          rw [Function.update_self]
          simp [answer, Reading.addSubsystem]
        · rw [Function.update_of_ne fun h => hp (Key.subsystem.inj h).2.2.symm]
          simp [answer, Reading.addSubsystem, hv, hm, Std.ExtTreeMap.getElem?_insert, hp]
      · rw [Function.update_of_ne fun h =>
          hk ⟨(Key.subsystem.inj h).1.symm, (Key.subsystem.inj h).2.1.symm⟩]
        by_cases hkey : key = k
        · subst k
          have hmk : modelKey ≠ m := fun h => hk ⟨rfl, h⟩
          simp [answer, Reading.addSubsystem, hv, Std.ExtTreeMap.getElem?_insert, hmk]
        · simp [answer, Reading.addSubsystem, Std.ExtTreeMap.getElem?_insert, hkey]

end Additions

/-! ### The sheet of a database that is read -/

/-- A sheet has the answers of the database and its pointers, which point to entries. -/
structure Shows (st : Reading) (s : Sheet) : Prop where
  answers : answer st.db = s.answers
  curVendor : st.curVendor = s.curVendor
  curModel : st.curModel = s.curModel
  vendorThere : ∀ key, st.curVendor = some key → (answer st.db (.vendor key)).isSome
  modelThere : ∀ keys, st.curModel = some keys → (answer st.db (.model keys.1 keys.2)).isSome

theorem shows_blank : Shows ⟨∅, none, none⟩ Sheet.blank where
  answers := by
    funext key
    cases key <;> simp [answer, Sheet.blank]
  curVendor := rfl
  curModel := rfl
  vendorThere := fun _ h => by cases h
  modelThere := fun _ h => by cases h

/-- A line has the same effect on both, and both can be read on from there. -/
structure Tracks (r : Reading × Bool) (q : Sheet × Bool) : Prop where
  goesOn : r.2 = q.2
  answers : answer r.1.db = q.1.answers
  shown : q.2 = true → Shows r.1 q.1

section Refinement

variable {st st' : Reading} {s : Sheet} {line : Text}

theorem Shows.tracks (h : Shows st s) : Tracks (st, true) (s, true) :=
  ⟨rfl, h.answers, fun _ => h⟩

theorem isSome_update {a : Key → Option Text} {q : Key} (hq : (a q).isSome) (key : Key)
    (name : Text) : (Function.update a key (some name) q).isSome := by
  by_cases hk : q = key
  · rw [hk, Function.update_self]
    rfl
  · rwa [Function.update_of_ne hk]

theorem eq_vendor_of_vendor? {key : Key} {id : Text} (h : key.vendor? = some id) :
    key = .vendor id := by
  cases key with
  | vendor k => rw [Option.some.inj h]
  | model k m => cases h
  | subsystem k m p => cases h

theorem eq_model_of_model? {key : Key} {ids : Text × Text} (h : key.model? = some ids) :
    key = .model ids.1 ids.2 := by
  cases key with
  | vendor k => cases h
  | model k m => rw [← Option.some.inj h]
  | subsystem k m p => cases h

/-- An addition to the database that answers one more question is a line written on the sheet. -/
theorem Shows.tracks_write (h : Shows st s) {e : Entry}
    (ha : answer st'.db = Function.update (answer st.db) e.1 (some e.2))
    (hv : st'.curVendor = e.1.vendor?.or st.curVendor)
    (hm : st'.curModel = e.1.model?.or st.curModel) : Tracks (st', true) (s.write e, true) := by
  have ha' : answer st'.db = (s.write e).answers := by rw [ha, h.answers, Sheet.write]
  refine ⟨rfl, ha', fun _ => ⟨ha', ?_, ?_, ?_, ?_⟩⟩
  · rw [hv, h.curVendor, Sheet.write]
  · rw [hm, h.curModel, Sheet.write]
  · intro key hkey
    rw [ha]
    rw [hv] at hkey
    obtain hnew | ⟨-, hold⟩ := Option.or_eq_some_iff.mp hkey
    · rw [eq_vendor_of_vendor? hnew, Function.update_self]
      rfl
    · exact isSome_update (h.vendorThere key hold) _ _
  · intro keys hkeys
    rw [ha]
    rw [hm] at hkeys
    obtain hnew | ⟨-, hold⟩ := Option.or_eq_some_iff.mp hkeys
    · rw [eq_model_of_model? hnew, Function.update_self]
      rfl
    · exact isSome_update (h.modelThere keys hold) _ _

/-- A vendor line. -/
theorem Shows.tracks_vendor (h : Shows st s) (h0 : line.findIdx? isValidHexChar = some 0) :
    Tracks (parseLine line st) (s.read line) := by
  have hold : line.take 4 ∈ st.db ↔ (s.answers (.vendor (line.take 4))).isSome := by
    rw [← h.answers, answer, Option.isSome_map, Std.ExtTreeMap.isSome_getElem?_iff_mem]
  rw [parseLine_vendor h0, Sheet.read, entryOf, h0]
  change Tracks _ (match (if line.length < 7 then none
    else some (Key.vendor (line.take 4), line.drop 6)) with | none => _ | some e => _)
  by_cases hlen : line.length < 7
  · rw [if_pos (Or.inl hlen), if_pos hlen]
    exact h.tracks
  · rw [if_neg hlen]
    dsimp only
    by_cases hin : line.take 4 ∈ st.db
    · rw [if_pos (Or.inr hin), if_pos (hold.mp hin)]
      exact h.tracks
    · rw [if_neg (not_or_intro hlen hin), if_neg (hold.not.mp hin)]
      have hkey : Key.vendor (line.take 4) = Key.deviceClasses ↔
          line.take 4 = kPciidsDeviceClassStartIndicator := by
        rw [Key.deviceClasses, Key.vendor.injEq]
      by_cases hid : line.take 4 = kPciidsDeviceClassStartIndicator
      · rw [if_pos hid, if_pos (hkey.mpr hid)]
        exact ⟨rfl, h.answers, fun hfalse => by cases hfalse⟩
      · rw [if_neg hid, if_neg (hkey.not.mpr hid)]
        exact h.tracks_write (answer_addVendor hin) rfl rfl

/-- A model line. -/
theorem Shows.tracks_model (h : Shows st s) (h1 : line.findIdx? isValidHexChar = some 1) :
    Tracks (parseLine line st) (s.read line) := by
  rw [parseLine_model h1, Sheet.read, entryOf, h1, ← h.curVendor]
  change Tracks _ (match (if line.length < 8 then none
    else st.curVendor.map fun key => (Key.model key ((line.drop 1).take 4), line.drop 7)) with
      | none => _ | some e => _)
  cases hcur : st.curVendor with
  | none =>
      have hat : st.vendorAt = none := by rw [Reading.vendorAt, hcur, Option.bind_none]
      rw [hat, Option.map_none, ite_self]
      exact h.tracks
  | some key =>
      obtain ⟨vendor, hv⟩ : ∃ vendor, st.db[key]? = some vendor :=
        Option.isSome_iff_exists.mp (Option.isSome_map.symm.trans (h.vendorThere key hcur))
      have hat : st.vendorAt = some (key, vendor) := by
        rw [Reading.vendorAt, hcur, Option.bind_some, hv, Option.map_some]
      have hold : (line.drop 1).take 4 ∈ vendor.models ↔
          (s.answers (.model key ((line.drop 1).take 4))).isSome := by
        rw [← h.answers, answer, Option.isSome_map, hv, Option.bind_some,
          Std.ExtTreeMap.isSome_getElem?_iff_mem]
      rw [hat, Option.map_some]
      dsimp only
      by_cases hlen : line.length < 8
      · rw [if_pos (Or.inl hlen), if_pos hlen]
        exact h.tracks
      · rw [if_neg hlen]
        dsimp only
        by_cases hin : (line.drop 1).take 4 ∈ vendor.models
        · rw [if_pos (Or.inr hin), if_pos (hold.mp hin)]
          exact h.tracks
        · rw [if_neg (not_or_intro hlen hin), if_neg (hold.not.mp hin), if_neg Key.noConfusion]
          exact h.tracks_write (answer_addModel hv hin) rfl rfl

/-- A subsystem line. -/
theorem Shows.tracks_subsystem (h : Shows st s) (h2 : line.findIdx? isValidHexChar = some 2) :
    Tracks (parseLine line st) (s.read line) := by
  rw [parseLine_subsystem h2, Sheet.read, entryOf, h2, ← h.curModel]
  change Tracks _ (match (if line.length < 12 then none
    else st.curModel.map fun keys =>
      (Key.subsystem keys.1 keys.2 ((line.drop 2).take 9), trim (line.drop 11))) with
      | none => _ | some e => _)
  cases hcur : st.curModel with
  | none =>
      have hat : st.modelAt = none := by rw [Reading.modelAt, hcur, Option.bind_none]
      rw [hat, Option.map_none, ite_self]
      exact h.tracks
  | some keys =>
      obtain ⟨key, modelKey⟩ := keys
      obtain ⟨model, hfound⟩ : ∃ model,
          (st.db[key]?.bind fun vendor => vendor.models[modelKey]?) = some model :=
        Option.isSome_iff_exists.mp (Option.isSome_map.symm.trans (h.modelThere _ hcur))
      obtain ⟨vendor, hv, hm⟩ := Option.bind_eq_some_iff.mp hfound
      have hat : st.modelAt = some (key, vendor, modelKey, model) := by
        rw [Reading.modelAt, hcur, Option.bind_some, hv, Option.bind_some, hm, Option.map_some]
      have hold : (line.drop 2).take 9 ∈ model.subsystemInfo ↔
          (s.answers (.subsystem key modelKey ((line.drop 2).take 9))).isSome := by
        rw [← h.answers, answer, hfound, Option.bind_some, Std.ExtTreeMap.isSome_getElem?_iff_mem]
      rw [hat, Option.map_some]
      dsimp only
      by_cases hlen : line.length < 12
      · rw [if_pos (Or.inl hlen), if_pos hlen]
        exact h.tracks
      · rw [if_neg hlen]
        dsimp only
        by_cases hin : (line.drop 2).take 9 ∈ model.subsystemInfo
        · rw [if_pos (Or.inr hin), if_pos (hold.mp hin)]
          exact h.tracks
        · rw [if_neg (not_or_intro hlen hin), if_neg (hold.not.mp hin), if_neg Key.noConfusion]
          exact h.tracks_write (answer_addSubsystem hv hm) rfl rfl

theorem Shows.tracks_parseLine (h : Shows st s) (line : Text) :
    Tracks (parseLine line st) (s.read line) := by
  by_cases h0 : line.findIdx? isValidHexChar = some 0
  · exact h.tracks_vendor h0
  by_cases h1 : line.findIdx? isValidHexChar = some 1
  · exact h.tracks_model h1
  by_cases h2 : line.findIdx? isValidHexChar = some 2
  · exact h.tracks_subsystem h2
  · have hnone : entryOf line s.curVendor s.curModel = none := by
      rw [entryOf]
      split
      · exact absurd ‹_› h0
      · exact absurd ‹_› h1
      · exact absurd ‹_› h2
      · rfl
    rw [parseLine_other h0 h1 h2, Sheet.read, hnone]
    exact h.tracks

theorem Shows.tracks_parseLines {lines : List Text} (h : Shows st s) :
    Tracks (parseLines lines st) (s.readLines lines) := by
  induction lines generalizing st s with
  | nil => exact h.tracks
  | cons line lines ih =>
      have hstep := h.tracks_parseLine (stripped line)
      rw [parseLines, Sheet.readLines]
      cases hr : parseLine (stripped line) st with
      | mk st' b =>
          cases hq : s.read (stripped line) with
          | mk s' b' =>
              rw [hr, hq] at hstep
              obtain rfl : b = b' := hstep.goesOn
              cases b with
              | false => exact hstep
              | true => exact ih (hstep.shown rfl)

end Refinement

/-! ### What stays on a sheet -/

namespace Sheet

variable {s s' : Sheet}

theorem readLines_cons {line : Text} (h : s.read (stripped line) = (s', true))
    (lines : List Text) : s.readLines (line :: lines) = s'.readLines lines := by
  rw [readLines, h]

theorem readLines_append {lines : List Text} (h : s.readLines lines = (s', true))
    (rest : List Text) : s.readLines (lines ++ rest) = s'.readLines rest := by
  induction lines generalizing s with
  | nil =>
      obtain rfl : s = s' := congrArg Prod.fst h
      rfl
  | cons line lines ih =>
      rw [readLines] at h
      rw [List.cons_append, readLines]
      cases hread : s.read (stripped line) with
      | mk t b =>
          rw [hread] at h
          cases b with
          | false => cases h
          | true => exact ih h

/-- A line leaves the answers as they are or gives an answer to one question without. -/
theorem answers_read (s : Sheet) (line : Text) :
    (s.read line).1 = s ∨ ∃ e, entryOf line s.curVendor s.curModel = some e ∧
      s.answers e.1 = none ∧ (s.read line).1 = s.write e := by
  cases he : entryOf line s.curVendor s.curModel with
  | none => exact Or.inl (congrArg Prod.fst (read_of_none he))
  | some e =>
      cases hanswer : s.answers e.1 with
      | some name => exact Or.inl (congrArg Prod.fst (read_of_answered he hanswer))
      | none =>
          by_cases hkey : e.1 = Key.deviceClasses
          · exact Or.inl (congrArg Prod.fst (read_of_deviceClasses he hanswer hkey))
          · exact Or.inr ⟨e, rfl, hanswer, congrArg Prod.fst (read_of_new he hanswer hkey)⟩

/-- What every line preserves is preserved by all of them. -/
theorem readLines_preserves {I : Sheet → Prop}
    (hstep : ∀ s line, I s → I (s.read (stripped line)).1) (hs : I s) (lines : List Text) :
    I (s.readLines lines).1 := by
  induction lines generalizing s with
  | nil => exact hs
  | cons line lines ih =>
      have hnext := hstep s line hs
      rw [readLines]
      cases hread : s.read (stripped line) with
      | mk t b =>
          rw [hread] at hnext
          cases b with
          | false => exact hnext
          | true => exact ih hnext

/-- An answer is never changed. -/
theorem answers_readLines {key : Key} {name : Text} (h : s.answers key = some name)
    (lines : List Text) : (s.readLines lines).1.answers key = some name := by
  apply readLines_preserves (I := fun s => s.answers key = some name) _ h
  intro s line hs
  obtain heq | ⟨e, -, hnone, heq⟩ := s.answers_read (stripped line)
  · rwa [heq]
  · have hne : key ≠ e.1 := by
      rintro rfl
      rw [hnone] at hs
      cases hs
    rw [heq, answers_write_of_ne hne]
    exact hs

end Sheet

/-- The database of a text answers as the sheet of its lines. -/
theorem answer_pciDB (text : Text) :
    answer (pciDB text) = (Sheet.blank.readLines (getlines text)).1.answers :=
  shows_blank.tracks_parseLines.answers

end Osquery.Tables.PciDatabase
