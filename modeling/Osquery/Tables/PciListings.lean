import Mathlib.Data.List.Nodup
import Osquery.Foundation.LeadingRuns
import Osquery.Tables.PciSheets

/-!
# The listing of PCI identifiers

A listing has vendors, their models and the subsystems of the models, each with an id and a
name. A listed line without a comment character is one entry of the sheet, and the entries of a
listing have questions of their own, so that the lines of a listing are all written.
-/

namespace Osquery.Tables.PciDatabase

open Foundation.Numeral

/-- Four lower-case hexadecimal digits. -/
structure HexId where
  text : Text
  length_eq : text.length = 4
  digits : ∀ c ∈ text, isValidHexChar c = true

/-- A name stands on one line, without white space at its ends. -/
structure Name where
  text : Text
  nonempty : text ≠ []
  oneLine : '\n' ∉ text
  first : ∀ c ∈ text.head?, isSpace c = false
  last : ∀ c ∈ text.getLast?, isSpace c = false

/-- An id that is checked character by character. -/
def HexId.ofText (text : Text)
    (h : (text.length == 4 && text.all isValidHexChar) = true) : HexId where
  text := text
  length_eq := beq_iff_eq.mp (Bool.and_eq_true_iff.mp h).1
  digits := fun _ hc => List.all_eq_true.mp (Bool.and_eq_true_iff.mp h).2 _ hc

/-- A name that is checked at its ends. -/
def Name.ofText (text : Text) (h : (text.head?.any (fun c => !isSpace c) &&
    text.getLast?.all (fun c => !isSpace c) && !text.contains '\n') = true) : Name where
  text := text
  nonempty := by
    rintro rfl
    cases h
  oneLine := by
    rw [Bool.and_eq_true_iff, Bool.not_eq_true', List.contains_eq_mem, decide_eq_false_iff_not]
      at h
    exact h.2
  first := by
    rw [Bool.and_eq_true_iff, Bool.and_eq_true_iff] at h
    intro c hc
    rw [Option.mem_def.mp hc] at h
    simpa using h.1.1
  last := by
    rw [Bool.and_eq_true_iff, Bool.and_eq_true_iff] at h
    intro c hc
    rw [Option.mem_def.mp hc] at h
    simpa using h.1.2

/-- An id or a pair of ids with two spaces and a name. -/
def labelled (label : Text) (name : Name) : Text := label ++ ' ' :: ' ' :: name.text

structure Subsystem where
  vendorId : HexId
  deviceId : HexId
  name : Name

namespace Subsystem

variable (s : Subsystem)

def pair : Text := s.vendorId.text ++ ' ' :: s.deviceId.text

def line : Text := '\t' :: '\t' :: labelled s.pair s.name

def entry (vendorId modelId : Text) : Entry := (.subsystem vendorId modelId s.pair, s.name.text)

end Subsystem

structure Model where
  id : HexId
  name : Name
  subsystems : List Subsystem
  distinct : (subsystems.map Subsystem.pair).Nodup

namespace Model

variable (m : Model)

def line : Text := '\t' :: labelled m.id.text m.name

def lines : List Text := m.line :: m.subsystems.map Subsystem.line

def entries (vendorId : Text) : List Entry :=
  (.model vendorId m.id.text, m.name.text) ::
    m.subsystems.map fun s => s.entry vendorId m.id.text

end Model

structure Vendor where
  id : HexId
  name : Name
  models : List Model
  distinct : (models.map fun m => m.id.text).Nodup
  proper : id.text ≠ kPciidsDeviceClassStartIndicator

namespace Vendor

variable (v : Vendor)

def line : Text := labelled v.id.text v.name

def lines : List Text := v.line :: v.models.flatMap Model.lines

def entries : List Entry :=
  (.vendor v.id.text, v.name.text) :: v.models.flatMap fun m => m.entries v.id.text

end Vendor

structure Listing where
  vendors : List Vendor
  distinct : (vendors.map fun v => v.id.text).Nodup

namespace Listing

variable (listing : Listing)

def lines : List Text := listing.vendors.flatMap Vendor.lines

/-- Every question that the listing answers, with the listed name. -/
def entries : List Entry := listing.vendors.flatMap Vendor.entries

/-- The vendor that was listed last. -/
def lastVendor : Option Text := (listing.entries.filterMap fun e => e.1.vendor?).getLast?

/-- The model that was listed last. -/
def lastModel : Option (Text × Text) := (listing.entries.filterMap fun e => e.1.model?).getLast?

end Listing

/-! ### The entry of a listed line -/

section Lines

open Foundation.LeadingRuns

theorem isValidHexChar_space : isValidHexChar ' ' = false := by decide

theorem isValidHexChar_tab : isValidHexChar '\t' = false := by decide

theorem HexId.exists_cons (id : HexId) :
    ∃ c rest, id.text = c :: rest ∧ isValidHexChar c = true := by
  cases htext : id.text with
  | nil =>
      have hlength := id.length_eq
      rw [htext] at hlength
      cases hlength
  | cons c rest => exact ⟨c, rest, rfl, id.digits c (htext ▸ List.mem_cons_self)⟩

theorem HexId.not_mem {id : HexId} {c : Char} (hc : isValidHexChar c = false) : c ∉ id.text := by
  intro hmem
  rw [id.digits c hmem] at hc
  cases hc

theorem Name.length_pos (name : Name) : 0 < name.text.length :=
  List.length_pos_iff.mpr name.nonempty

/-- A line without a comment character that ends with a name is read as it is. -/
theorem stripped_append {label : Text} {name : Name} (hlabel : kPciidsCommentChar ∉ label)
    (hname : kPciidsCommentChar ∉ name.text) :
    stripped (label ++ name.text) = label ++ name.text := by
  have hkeep : ∀ c ∈ label ++ name.text, (c != kPciidsCommentChar) = true := by
    intro c hc
    rw [bne_iff_ne]
    rintro rfl
    exact (List.mem_append.mp hc).elim hlabel hname
  rw [stripped, List.takeWhile_eq_self_iff.mpr hkeep, List.rdropWhile_eq_self_iff]
  intro hne
  rw [List.getLast_append_of_ne_nil hne name.nonempty]
  simp [name.last _ (List.getLast?_eq_some_getLast name.nonempty)]

/-- A name that does not begin with a comment character leaves its first character. -/
theorem stripped_append_cons {label : Text} {c : Char} (rest : Text)
    (hlabel : kPciidsCommentChar ∉ label) (hc : c ≠ kPciidsCommentChar)
    (hspace : isSpace c = false) :
    ∃ rest', stripped (label ++ c :: rest) = label ++ c :: rest' := by
  have hkeep : ∀ d ∈ label, (d != kPciidsCommentChar) = true := by
    intro d hd
    rw [bne_iff_ne]
    rintro rfl
    exact hlabel hd
  have hc' : (c != kPciidsCommentChar) = true := bne_iff_ne.mpr hc
  rw [stripped, List.takeWhile_append_of_pos hkeep, List.takeWhile_cons, if_pos hc']
  generalize rest.takeWhile (fun d => d != kPciidsCommentChar) = kept
  induction kept using List.reverseRecOn with
  | nil => exact ⟨[], List.rdropWhile_concat_neg isSpace label c (by simp [hspace])⟩
  | append_singleton kept d ih =>
      rw [← List.cons_append, ← List.append_assoc]
      by_cases hd : isSpace d = true
      · rw [List.rdropWhile_concat_pos _ _ _ hd]
        exact ih
      · rw [List.rdropWhile_concat_neg _ _ _ hd, List.append_assoc, List.cons_append]
        exact ⟨_, rfl⟩

theorem trim_name (name : Name) : trim (' ' :: ' ' :: name.text) = name.text := by
  have hfirst : name.text.dropWhile isSpace = name.text :=
    @dropWhile_append Char isSpace [] name.text (by simp) name.first
  have hspace : isSpace ' ' = true := by decide
  rw [trim, List.dropWhile_cons_of_pos hspace, List.dropWhile_cons_of_pos hspace, hfirst,
    List.rdropWhile_eq_self_iff]
  intro hne
  simp [name.last _ (List.getLast?_eq_some_getLast hne)]

theorem HexId.findIdx?_append (id : HexId) (rest : Text) :
    (id.text ++ rest).findIdx? isValidHexChar = some 0 := by
  obtain ⟨c, cs, htext, hc⟩ := id.exists_cons
  rw [htext, List.cons_append, List.findIdx?_cons, if_pos hc]

theorem findIdx?_tab (rest : Text) (k : ℕ) (h : rest.findIdx? isValidHexChar = some k) :
    ('\t' :: rest).findIdx? isValidHexChar = some (k + 1) := by
  rw [List.findIdx?_cons, if_neg (by simp [isValidHexChar_tab]), h, Option.map_some]

theorem Subsystem.length_pair (s : Subsystem) : s.pair.length = 9 := by
  rw [Subsystem.pair, List.length_append, List.length_cons, s.vendorId.length_eq,
    s.deviceId.length_eq]

theorem entryOf_vendor (v : Vendor) (curVendor : Option Text) (curModel : Option (Text × Text)) :
    entryOf v.line curVendor curModel = some (.vendor v.id.text, v.name.text) := by
  have hfind : v.line.findIdx? isValidHexChar = some 0 := v.id.findIdx?_append _
  have hlength : ¬ v.line.length < 7 := by
    have hpos := v.name.length_pos
    simp only [Vendor.line, labelled, List.length_append, List.length_cons, v.id.length_eq]
    omega
  have htake : v.line.take 4 = v.id.text := List.take_left' v.id.length_eq
  have hdrop : v.line.drop 6 = v.name.text := by
    rw [Vendor.line, labelled, ← List.drop_drop (i := 2) (j := 4), List.drop_left' v.id.length_eq]
    rfl
  rw [entryOf, hfind]
  change (if v.line.length < 7 then none else some (Key.vendor (v.line.take 4), v.line.drop 6)) = _
  rw [if_neg hlength, htake, hdrop]

theorem entryOf_model (m : Model) (vendorId : Text) (curModel : Option (Text × Text)) :
    entryOf m.line (some vendorId) curModel =
      some (.model vendorId m.id.text, m.name.text) := by
  have hfind : m.line.findIdx? isValidHexChar = some 1 :=
    findIdx?_tab _ 0 (m.id.findIdx?_append _)
  have hlength : ¬ m.line.length < 8 := by
    have hpos := m.name.length_pos
    simp only [Model.line, labelled, List.length_append, List.length_cons, m.id.length_eq]
    omega
  have htake : (m.line.drop 1).take 4 = m.id.text := List.take_left' m.id.length_eq
  have hdrop : m.line.drop 7 = m.name.text := by
    change (labelled m.id.text m.name).drop 6 = _
    rw [labelled, ← List.drop_drop (i := 2) (j := 4), List.drop_left' m.id.length_eq]
    rfl
  rw [entryOf, hfind]
  change (if m.line.length < 8 then none
    else some (Key.model vendorId ((m.line.drop 1).take 4), m.line.drop 7)) = _
  rw [if_neg hlength, htake, hdrop]

theorem entryOf_subsystem (s : Subsystem) (curVendor : Option Text) (vendorId modelId : Text) :
    entryOf s.line curVendor (some (vendorId, modelId)) = some (s.entry vendorId modelId) := by
  have hfind : s.line.findIdx? isValidHexChar = some 2 := by
    refine findIdx?_tab _ 1 (findIdx?_tab _ 0 ?_)
    rw [labelled, Subsystem.pair, List.append_assoc]
    exact s.vendorId.findIdx?_append _
  have hlength : ¬ s.line.length < 12 := by
    have hpos := s.name.length_pos
    simp only [Subsystem.line, labelled, List.length_append, List.length_cons, s.length_pair]
    omega
  have htake : (s.line.drop 2).take 9 = s.pair := List.take_left' s.length_pair
  have hdrop : s.line.drop 11 = ' ' :: ' ' :: s.name.text := List.drop_left' s.length_pair
  rw [entryOf, hfind]
  change (if s.line.length < 12 then none
    else some (Key.subsystem vendorId modelId ((s.line.drop 2).take 9), trim (s.line.drop 11))) = _
  rw [if_neg hlength, htake, hdrop, trim_name, Subsystem.entry]

end Lines

/-! ### The sheet of a listing -/

namespace Sheet

variable {s : Sheet} {key : Key} {name : Text}

/-- The sheet with entries written one after the other. -/
def writeAll (s : Sheet) (entries : List Entry) : Sheet := entries.foldl write s

/-- Entries with questions of their own that have no answer yet, none about the device classes. -/
structure Fresh (s : Sheet) (entries : List Entry) : Prop where
  distinct : (entries.map Prod.fst).Nodup
  open_ : ∀ e ∈ entries, s.answers e.1 = none
  proper : ∀ e ∈ entries, e.1 ≠ Key.deviceClasses

theorem Fresh.tail {e : Entry} {entries : List Entry} (h : s.Fresh (e :: entries)) :
    (s.write e).Fresh entries := by
  have hdistinct := h.distinct
  rw [List.map_cons, List.nodup_cons] at hdistinct
  refine ⟨hdistinct.2, fun e' he' => ?_, fun e' he' => h.proper e' (List.mem_cons_of_mem _ he')⟩
  have hne : e'.1 ≠ e.1 := fun heq => hdistinct.1 (heq ▸ List.mem_map_of_mem he')
  exact (answers_write_of_ne hne).trans (h.open_ e' (List.mem_cons_of_mem _ he'))

theorem Fresh.left {before after : List Entry} (h : s.Fresh (before ++ after)) :
    s.Fresh before := by
  have hdistinct := h.distinct
  rw [List.map_append] at hdistinct
  exact ⟨hdistinct.sublist (List.sublist_append_left _ _),
    fun e he => h.open_ e (List.mem_append_left _ he),
    fun e he => h.proper e (List.mem_append_left _ he)⟩

theorem Fresh.right {before after : List Entry} (h : s.Fresh (before ++ after)) :
    (s.writeAll before).Fresh after := by
  induction before generalizing s with
  | nil => exact h
  | cons e before ih => exact ih h.tail

/-- A line with a fresh entry is written. -/
theorem Fresh.read {line : Text} {e : Entry} {entries : List Entry} (h : s.Fresh (e :: entries))
    (he : entryOf line s.curVendor s.curModel = some e) : s.read line = (s.write e, true) :=
  read_of_new he (h.open_ e List.mem_cons_self) (h.proper e List.mem_cons_self)

/-- What the last entry that has something to say about a field says, or what it was before. -/
theorem field_writeAll {α : Type} {field : Sheet → Option α} {pick : Key → Option α}
    (hwrite : ∀ s e, field (s.write e) = (pick e.1).or (field s)) (entries : List Entry) :
    field (s.writeAll entries) =
      (entries.filterMap fun e => pick e.1).getLast?.or (field s) := by
  induction entries generalizing s with
  | nil => rfl
  | cons e entries ih =>
      rw [writeAll, List.foldl_cons, ← writeAll, ih, hwrite, List.filterMap_cons]
      cases pick e.1 with
      | none => rw [Option.none_or]
      | some a =>
          rw [List.getLast?_cons]
          cases (entries.filterMap fun e => pick e.1).getLast? <;> rfl

theorem curVendor_writeAll (entries : List Entry) :
    (s.writeAll entries).curVendor =
      (entries.filterMap fun e => e.1.vendor?).getLast?.or s.curVendor :=
  field_writeAll (fun _ _ => rfl) entries

theorem curModel_writeAll (entries : List Entry) :
    (s.writeAll entries).curModel =
      (entries.filterMap fun e => e.1.model?).getLast?.or s.curModel :=
  field_writeAll (fun _ _ => rfl) entries

/-- Fresh entries are answered as they are written, everything else as before. -/
theorem answers_writeAll {entries : List Entry} (hdistinct : (entries.map Prod.fst).Nodup) :
    (s.writeAll entries).answers key = some name ↔
      (key, name) ∈ entries ∨ key ∉ entries.map Prod.fst ∧ s.answers key = some name := by
  induction entries generalizing s with
  | nil => simp [writeAll]
  | cons e entries ih =>
      rw [List.map_cons, List.nodup_cons] at hdistinct
      rw [writeAll, List.foldl_cons, ← writeAll, ih hdistinct.2, List.map_cons, List.mem_cons,
        List.mem_cons, not_or]
      by_cases hk : key = e.1
      · rw [hk, answers_write_self, Option.some.injEq]
        have hnot : (e.1, name) ∉ entries := fun hmem =>
          hdistinct.1 (List.mem_map.mpr ⟨_, hmem, rfl⟩)
        have heq : (e.1, name) = e ↔ e.2 = name := by
          rw [Prod.ext_iff]
          exact ⟨fun h => h.2.symm, fun h => ⟨rfl, h.symm⟩⟩
        simp [hnot, heq, hdistinct.1]
      · rw [answers_write_of_ne hk]
        have hne : (key, name) ≠ e := fun heq => hk (congrArg Prod.fst heq)
        simp [hne, hk]

end Sheet

section Listed

variable {s : Sheet}

theorem comment_not_mem_pair (sub : Subsystem) : kPciidsCommentChar ∉ sub.pair := by
  have hhex : isValidHexChar kPciidsCommentChar = false := by decide
  rw [Subsystem.pair, List.mem_append, List.mem_cons]
  rintro (h | h | h)
  · exact HexId.not_mem hhex h
  · exact absurd h (by decide)
  · exact HexId.not_mem hhex h

theorem stripped_labelled (before : Text) {label : Text} {name : Name}
    (hbefore : kPciidsCommentChar ∉ before) (hlabel : kPciidsCommentChar ∉ label)
    (hname : kPciidsCommentChar ∉ name.text) :
    stripped (before ++ labelled label name) = before ++ labelled label name := by
  have hsplit : before ++ labelled label name = (before ++ (label ++ [' ', ' '])) ++ name.text := by
    rw [labelled, List.append_assoc, List.append_assoc]
    rfl
  rw [hsplit]
  refine stripped_append ?_ hname
  rw [List.mem_append, List.mem_append]
  rintro (h | h | h)
  · exact hbefore h
  · exact hlabel h
  · exact absurd h (by decide)

theorem read_subsystem {sub : Subsystem} {vendorId modelId : Text} {entries : List Entry}
    (hclean : kPciidsCommentChar ∉ sub.name.text) (hmodel : s.curModel = some (vendorId, modelId))
    (h : s.Fresh (sub.entry vendorId modelId :: entries)) :
    s.read (stripped sub.line) = (s.write (sub.entry vendorId modelId), true) := by
  have hstripped : stripped sub.line = sub.line :=
    stripped_labelled ['\t', '\t'] (by decide) (comment_not_mem_pair sub) hclean
  rw [hstripped]
  refine h.read ?_
  rw [hmodel]
  exact entryOf_subsystem sub _ _ _

theorem readLines_subsystems {subs : List Subsystem} {vendorId modelId : Text}
    (hclean : ∀ sub ∈ subs, kPciidsCommentChar ∉ sub.name.text)
    (hmodel : s.curModel = some (vendorId, modelId))
    (h : s.Fresh (subs.map fun sub => sub.entry vendorId modelId)) :
    s.readLines (subs.map Subsystem.line) =
      (s.writeAll (subs.map fun sub => sub.entry vendorId modelId), true) := by
  induction subs generalizing s with
  | nil => rfl
  | cons sub subs ih =>
      have hread := read_subsystem (hclean sub List.mem_cons_self) hmodel h
      rw [List.map_cons, Sheet.readLines_cons hread]
      exact ih (fun t ht => hclean t (List.mem_cons_of_mem _ ht)) hmodel h.tail

theorem readLines_model {m : Model} {vendorId : Text}
    (hclean : ∀ e ∈ m.entries vendorId, kPciidsCommentChar ∉ e.2)
    (hvendor : s.curVendor = some vendorId) (h : s.Fresh (m.entries vendorId)) :
    s.readLines m.lines = (s.writeAll (m.entries vendorId), true) := by
  have hhex : isValidHexChar kPciidsCommentChar = false := by decide
  have hstripped : stripped m.line = m.line :=
    stripped_labelled ['\t'] (by decide) (HexId.not_mem hhex)
      (hclean _ List.mem_cons_self)
  have hread : s.read (stripped m.line) =
      (s.write (.model vendorId m.id.text, m.name.text), true) := by
    rw [hstripped]
    refine h.read ?_
    rw [hvendor]
    exact entryOf_model m _ _
  rw [Model.lines, Sheet.readLines_cons hread]
  refine readLines_subsystems (fun sub hsub => ?_) rfl h.tail
  exact hclean (sub.entry vendorId m.id.text)
    (List.mem_cons_of_mem _ (List.mem_map_of_mem hsub))

theorem curVendor_writeAll_model (m : Model) (vendorId : Text) :
    (s.writeAll (m.entries vendorId)).curVendor = s.curVendor := by
  have hnone : (m.entries vendorId).filterMap (fun e => e.1.vendor?) = [] := by
    rw [List.filterMap_eq_nil_iff]
    intro e he
    obtain rfl | hmem := List.mem_cons.mp he
    · rfl
    · obtain ⟨sub, -, rfl⟩ := List.mem_map.mp hmem
      rfl
  rw [Sheet.curVendor_writeAll, hnone]
  rfl

theorem readLines_models {ms : List Model} {vendorId : Text}
    (hclean : ∀ e ∈ ms.flatMap fun m => m.entries vendorId, kPciidsCommentChar ∉ e.2)
    (hvendor : s.curVendor = some vendorId)
    (h : s.Fresh (ms.flatMap fun m => m.entries vendorId)) :
    s.readLines (ms.flatMap Model.lines) =
      (s.writeAll (ms.flatMap fun m => m.entries vendorId), true) := by
  induction ms generalizing s with
  | nil => rfl
  | cons m ms ih =>
      rw [List.flatMap_cons] at hclean h
      have hread := readLines_model (fun e he => hclean e (List.mem_append_left _ he)) hvendor
        h.left
      have hcur := (curVendor_writeAll_model (s := s) m vendorId).trans hvendor
      rw [List.flatMap_cons, List.flatMap_cons, Sheet.readLines_append hread,
        ih (fun e he => hclean e (List.mem_append_right _ he)) hcur h.right, Sheet.writeAll,
        Sheet.writeAll, Sheet.writeAll, List.foldl_append]

theorem readLines_vendor {v : Vendor} (hclean : ∀ e ∈ v.entries, kPciidsCommentChar ∉ e.2)
    (h : s.Fresh v.entries) : s.readLines v.lines = (s.writeAll v.entries, true) := by
  have hhex : isValidHexChar kPciidsCommentChar = false := by decide
  have hstripped : stripped v.line = v.line :=
    stripped_labelled [] (by decide) (HexId.not_mem hhex)
      (hclean _ List.mem_cons_self)
  have hread : s.read (stripped v.line) = (s.write (.vendor v.id.text, v.name.text), true) := by
    rw [hstripped]
    exact h.read (entryOf_vendor v _ _)
  rw [Vendor.lines, Sheet.readLines_cons hread]
  exact readLines_models (fun e he => hclean e (List.mem_cons_of_mem _ he)) rfl h.tail

theorem readLines_vendors {vs : List Vendor}
    (hclean : ∀ e ∈ vs.flatMap Vendor.entries, kPciidsCommentChar ∉ e.2)
    (h : s.Fresh (vs.flatMap Vendor.entries)) :
    s.readLines (vs.flatMap Vendor.lines) = (s.writeAll (vs.flatMap Vendor.entries), true) := by
  induction vs generalizing s with
  | nil => rfl
  | cons v vs ih =>
      rw [List.flatMap_cons] at hclean h
      have hread := readLines_vendor (fun e he => hclean e (List.mem_append_left _ he)) h.left
      rw [List.flatMap_cons, List.flatMap_cons, Sheet.readLines_append hread,
        ih (fun e he => hclean e (List.mem_append_right _ he)) h.right, Sheet.writeAll,
        Sheet.writeAll, Sheet.writeAll, List.foldl_append]

end Listed

/-! ### The entries of a listing have questions of their own -/

namespace Key

/-- The vendor a question is about. -/
def vendorPart : Key → Text
  | vendor id => id
  | model vendorId _ => vendorId
  | subsystem vendorId _ _ => vendorId

/-- The model a question is about. -/
def modelPart : Key → Text
  | vendor _ => []
  | model _ id => id
  | subsystem _ modelId _ => modelId

def pairPart : Key → Text
  | subsystem _ _ pair => pair
  | _ => []

end Key

namespace Model

variable {m : Model} {vendorId : Text}

theorem vendorPart_of_mem {e : Entry} (he : e ∈ m.entries vendorId) :
    e.1.vendorPart = vendorId := by
  obtain rfl | hmem := List.mem_cons.mp he
  · rfl
  · obtain ⟨sub, -, rfl⟩ := List.mem_map.mp hmem
    rfl

theorem modelPart_of_mem {e : Entry} (he : e ∈ m.entries vendorId) :
    e.1.modelPart = m.id.text := by
  obtain rfl | hmem := List.mem_cons.mp he
  · rfl
  · obtain ⟨sub, -, rfl⟩ := List.mem_map.mp hmem
    rfl

theorem not_vendor_of_mem {e : Entry} (he : e ∈ m.entries vendorId) (id : Text) :
    e.1 ≠ .vendor id := by
  obtain rfl | hmem := List.mem_cons.mp he
  · exact Key.noConfusion
  · obtain ⟨sub, -, rfl⟩ := List.mem_map.mp hmem
    exact Key.noConfusion

theorem nodup_keys (m : Model) (vendorId : Text) : ((m.entries vendorId).map Prod.fst).Nodup := by
  rw [entries, List.map_cons, List.map_map, List.nodup_cons]
  constructor
  · rw [List.mem_map]
    rintro ⟨sub, -, heq⟩
    exact Key.noConfusion heq
  · refine List.Nodup.of_map Key.pairPart ?_
    rw [List.map_map]
    exact m.distinct

end Model

namespace Vendor

variable {v : Vendor}

theorem vendorPart_of_mem {e : Entry} (he : e ∈ v.entries) : e.1.vendorPart = v.id.text := by
  obtain rfl | hmem := List.mem_cons.mp he
  · rfl
  · obtain ⟨m, -, hm⟩ := List.mem_flatMap.mp hmem
    exact Model.vendorPart_of_mem hm

theorem nodup_keys (v : Vendor) : (v.entries.map Prod.fst).Nodup := by
  rw [entries, List.map_cons, List.map_flatMap, List.nodup_cons, List.nodup_flatMap]
  refine ⟨?_, fun m _ => m.nodup_keys _, ?_⟩
  · rw [List.mem_flatMap]
    rintro ⟨m, -, hm⟩
    obtain ⟨e, he, heq⟩ := List.mem_map.mp hm
    exact Model.not_vendor_of_mem he _ heq
  · refine (List.pairwise_map.mp v.distinct).imp fun {m m'} hne => ?_
    rintro key hm hm'
    obtain ⟨e, he, rfl⟩ := List.mem_map.mp hm
    obtain ⟨e', he', heq⟩ := List.mem_map.mp hm'
    exact hne (by rw [← Model.modelPart_of_mem he, ← Model.modelPart_of_mem he', heq])

/-- No entry of a listed vendor is about the device classes. -/
theorem proper_of_mem {e : Entry} (he : e ∈ v.entries) : e.1 ≠ Key.deviceClasses := by
  intro heq
  have hpart := vendorPart_of_mem he
  rw [heq] at hpart
  exact v.proper hpart.symm

end Vendor

namespace Listing

variable (listing : Listing)

theorem nodup_keys : (listing.entries.map Prod.fst).Nodup := by
  rw [entries, List.map_flatMap, List.nodup_flatMap]
  refine ⟨fun v _ => v.nodup_keys, ?_⟩
  refine (List.pairwise_map.mp listing.distinct).imp fun {v v'} hne => ?_
  rintro key hv hv'
  obtain ⟨e, he, rfl⟩ := List.mem_map.mp hv
  obtain ⟨e', he', heq⟩ := List.mem_map.mp hv'
  exact hne (by rw [← Vendor.vendorPart_of_mem he, ← Vendor.vendorPart_of_mem he', heq])

theorem fresh_blank : Sheet.blank.Fresh listing.entries where
  distinct := listing.nodup_keys
  open_ := fun _ _ => rfl
  proper := by
    intro e he
    obtain ⟨v, -, hv⟩ := List.mem_flatMap.mp he
    exact Vendor.proper_of_mem hv

/-- The sheet with the entries of the listing. -/
def sheet : Sheet := Sheet.blank.writeAll listing.entries

variable {listing}

theorem answers_sheet {key : Key} {name : Text} :
    listing.sheet.answers key = some name ↔ (key, name) ∈ listing.entries := by
  rw [sheet, Sheet.answers_writeAll listing.nodup_keys]
  simp [Sheet.blank]

theorem curVendor_sheet : listing.sheet.curVendor = listing.lastVendor := by
  rw [sheet, Sheet.curVendor_writeAll]
  exact Option.or_none

theorem curModel_sheet : listing.sheet.curModel = listing.lastModel := by
  rw [sheet, Sheet.curModel_writeAll]
  exact Option.or_none

theorem mem_entries_vendor {id name : Text} :
    (Key.vendor id, name) ∈ listing.entries ↔
      ∃ v ∈ listing.vendors, v.id.text = id ∧ v.name.text = name := by
  simp [entries, Vendor.entries, Model.entries, Subsystem.entry, eq_comm]

theorem mem_entries_model {vendorId id name : Text} :
    (Key.model vendorId id, name) ∈ listing.entries ↔
      ∃ v ∈ listing.vendors, v.id.text = vendorId ∧
        ∃ m ∈ v.models, m.id.text = id ∧ m.name.text = name := by
  simp only [entries, Vendor.entries, Model.entries, Subsystem.entry, List.mem_flatMap,
    List.mem_cons, List.mem_map, Prod.mk.injEq, Key.model.injEq, reduceCtorEq, false_and, and_false,
    exists_false, false_or, or_false]
  constructor
  · rintro ⟨v, hv, m, hm, ⟨rfl, rfl⟩, rfl⟩
    exact ⟨v, hv, rfl, m, hm, rfl, rfl⟩
  · rintro ⟨v, hv, rfl, m, hm, rfl, rfl⟩
    exact ⟨v, hv, m, hm, ⟨rfl, rfl⟩, rfl⟩

theorem mem_entries_subsystem {vendorId modelId pair name : Text} :
    (Key.subsystem vendorId modelId pair, name) ∈ listing.entries ↔
      ∃ v ∈ listing.vendors, v.id.text = vendorId ∧ ∃ m ∈ v.models, m.id.text = modelId ∧
        ∃ s ∈ m.subsystems, s.pair = pair ∧ s.name.text = name := by
  simp only [entries, Vendor.entries, Model.entries, Subsystem.entry, List.mem_flatMap,
    List.mem_cons, List.mem_map, Prod.mk.injEq, Key.subsystem.injEq, reduceCtorEq, false_and,
    false_or]
  constructor
  · rintro ⟨v, hv, m, hm, s, hs, ⟨rfl, rfl, rfl⟩, rfl⟩
    exact ⟨v, hv, rfl, m, hm, rfl, s, hs, rfl, rfl⟩
  · rintro ⟨v, hv, rfl, m, hm, rfl, s, hs, rfl, rfl⟩
    exact ⟨v, hv, m, hm, s, hs, ⟨rfl, rfl, rfl⟩, rfl⟩

end Listing

end Osquery.Tables.PciDatabase
