import Osquery.Tables.PciListings

/-!
# Looking up what a text lists

A text lists vendors when its lines are those of a listing, with blank lines and comment lines
anywhere between, up to the block of the device classes. The database of the text looks up the
listing when no name has a comment character, and when a comment character does not hide that
the block of the device classes begins.
-/

namespace Osquery.Tables.PciDatabase

open Foundation.Numeral

/-- Blank lines and comment lines. -/
def isNoise (line : Text) : Bool := line.all isSpace || line.head? == some kPciidsCommentChar

/-- The block of the device classes: the name of the indicator, and the lines after it. -/
def tailLines : Option (Name × List Text) → List Text
  | none => []
  | some (name, rest) => labelled kPciidsDeviceClassStartIndicator name :: rest

/-- The text lists the vendors, with blank lines and comment lines anywhere between, and may have
the block of the device classes and anything after it. -/
def Lists (text : Text) (listing : Listing) (tail : Option (Name × List Text)) : Prop :=
  ∃ front, getlines text = front ++ tailLines tail ∧
    front.filter (fun line => !isNoise line) = listing.lines

/-- The lookups give the listed names, and fail for everything else. -/
structure LooksUp (db : Db) (listing : Listing) : Prop where
  vendorName : ∀ vendorId name, getVendorName db vendorId = .ok name ↔
    ∃ v ∈ listing.vendors, v.id.text = vendorId ∧ v.name.text = name
  model : ∀ vendorId modelId desc, getModel db vendorId modelId = .ok desc ↔
    ∃ v ∈ listing.vendors, v.id.text = vendorId ∧
      ∃ m ∈ v.models, m.id.text = modelId ∧ m.name.text = desc
  subsystemInfo : ∀ vendorId modelId subsystemVendorId subsystemDeviceId info,
    getSubsystemInfo db vendorId modelId subsystemVendorId subsystemDeviceId = .ok info ↔
      ∃ v ∈ listing.vendors, v.id.text = vendorId ∧ ∃ m ∈ v.models, m.id.text = modelId ∧
        ∃ s ∈ m.subsystems, s.vendorId.text = subsystemVendorId ∧
          s.deviceId.text = subsystemDeviceId ∧ s.name.text = info

/-- A question that a lookup can ask: the two ids of a subsystem come with a space between. -/
def Key.Asked : Key → Prop
  | .subsystem _ _ pair => ' ' ∈ pair
  | _ => True

/-- After the listing the line makes no entry, or one that the listing has already, or one that
no lookup asks for. -/
def Harmless (listing : Listing) (line : Text) : Prop :=
  ∀ e, entryOf line listing.lastVendor listing.lastModel = some e → e.1.Asked →
    ∃ name, (e.1, name) ∈ listing.entries

/-- After the listing the line begins the block of the device classes. -/
def BeginsDeviceClasses (listing : Listing) (line : Text) : Prop :=
  ∃ name, entryOf line listing.lastVendor listing.lastModel = some (Key.deviceClasses, name)

/-- The lines after a listing are harmless, up to a block of the device classes. -/
def Silent (listing : Listing) : List Text → Prop
  | [] => True
  | line :: rest =>
    BeginsDeviceClasses listing (stripped line) ∨
      Harmless listing (stripped line) ∧ Silent listing rest

/-! ### Lines that say nothing -/

theorem stripped_of_isNoise {line : Text} (h : isNoise line = true) : stripped line = [] := by
  rw [stripped, List.rdropWhile_eq_nil_iff]
  intro c hc
  obtain hblank | hcomment := Bool.or_eq_true_iff.mp h
  · exact List.all_eq_true.mp hblank c ((List.takeWhile_prefix _).subset hc)
  · obtain ⟨rest, rfl⟩ := List.head?_eq_some_iff.mp (beq_iff_eq.mp hcomment)
    rw [List.takeWhile_cons_of_neg (by simp)] at hc
    cases hc

theorem Sheet.readLines_filter (s : Sheet) (lines : List Text) :
    s.readLines (lines.filter fun line => !isNoise line) = s.readLines lines := by
  induction lines generalizing s with
  | nil => rfl
  | cons line lines ih =>
      by_cases hnoise : isNoise line = true
      · have hread : s.read (stripped line) = (s, true) := by
          rw [stripped_of_isNoise hnoise]
          rfl
        rw [List.filter_cons_of_neg (by simp [hnoise]), ih, Sheet.readLines_cons hread]
      · rw [List.filter_cons_of_pos (by simp [hnoise]), Sheet.readLines, Sheet.readLines]
        cases hread : s.read (stripped line) with
        | mk t b =>
            cases b with
            | false => rfl
            | true => exact ih t

/-! ### No answer has a comment character -/

theorem comment_not_mem_stripped (line : Text) : kPciidsCommentChar ∉ stripped line := by
  intro hmem
  have hkept := List.mem_takeWhile_imp ((List.rdropWhile_prefix _ _).subset hmem)
  simp at hkept

theorem mem_of_mem_trim {text : Text} {c : Char} (h : c ∈ trim text) : c ∈ text :=
  (List.dropWhile_suffix _).subset ((List.rdropWhile_prefix _ _).subset h)

theorem mem_of_entryOf {line : Text} {curVendor : Option Text} {curModel : Option (Text × Text)}
    {e : Entry} (he : entryOf line curVendor curModel = some e) {c : Char} (hc : c ∈ e.2) :
    c ∈ line := by
  rw [entryOf] at he
  split at he
  · split at he
    · cases he
    · obtain rfl := Option.some.inj he
      exact List.mem_of_mem_drop hc
  · split at he
    · cases he
    · obtain ⟨key, -, rfl⟩ := Option.map_eq_some_iff.mp he
      exact List.mem_of_mem_drop hc
  · split at he
    · cases he
    · obtain ⟨keys, -, rfl⟩ := Option.map_eq_some_iff.mp he
      exact List.mem_of_mem_drop (mem_of_mem_trim hc)
  · cases he

theorem comment_not_mem_answer {text name : Text} {key : Key}
    (h : answer (pciDB text) key = some name) : kPciidsCommentChar ∉ name := by
  have hplain : ∀ key name, (Sheet.blank.readLines (getlines text)).1.answers key = some name →
      kPciidsCommentChar ∉ name := by
    refine Sheet.readLines_preserves
      (I := fun s => ∀ key name, s.answers key = some name → kPciidsCommentChar ∉ name)
      (fun s line hs => ?_) (fun _ _ h => by cases h) (getlines text)
    obtain heq | ⟨e, he, -, heq⟩ := s.answers_read (stripped line)
    · rw [heq]
      exact hs
    · rw [heq]
      intro key name hname
      by_cases hk : key = e.1
      · subst key
        rw [s.answers_write_self] at hname
        rw [← Option.some.inj hname]
        exact fun hmem => comment_not_mem_stripped line (mem_of_entryOf he hmem)
      · rw [Sheet.answers_write_of_ne hk] at hname
        exact hs key name hname
  rw [answer_pciDB] at h
  exact hplain key name h

/-! ### Looking up is answering -/

theorem Subsystem.pair_eq_iff {s : Subsystem} {vendorId deviceId : Text} :
    s.pair = vendorId ++ ' ' :: deviceId ↔
      s.vendorId.text = vendorId ∧ s.deviceId.text = deviceId := by
  have hspace : ∀ id : HexId, ' ' ∉ id.text := fun _ => HexId.not_mem isValidHexChar_space
  constructor
  · intro heq
    have hfirst : ' ' ∉ vendorId := by
      intro hmem
      obtain ⟨a, b, rfl, ha⟩ := List.eq_append_cons_of_mem hmem
      rw [List.append_assoc, List.cons_append] at heq
      obtain ⟨-, hdevice⟩ := Foundation.Separated.append_cons_inj (hspace s.vendorId) ha heq
      exact hspace s.deviceId (hdevice ▸ List.mem_append_right _ List.mem_cons_self)
    exact Foundation.Separated.append_cons_inj (hspace s.vendorId) hfirst heq
  · rintro ⟨rfl, rfl⟩
    rfl

section Lookups

variable {db : Db} {listing : Listing}

theorem getVendorName_eq_ok_iff_answer {vendorId name : Text} :
    getVendorName db vendorId = .ok name ↔ answer db (.vendor vendorId) = some name := by
  rw [getVendorName_eq_ok_iff, answer, Option.map_eq_some_iff]

theorem getModel_eq_ok_iff_answer {vendorId modelId desc : Text} :
    getModel db vendorId modelId = .ok desc ↔
      answer db (.model vendorId modelId) = some desc := by
  rw [getModel_eq_ok_iff, answer, Option.map_eq_some_iff]
  constructor
  · rintro ⟨vendor, hv, model, hm, hdesc⟩
    exact ⟨model, Option.bind_eq_some_iff.mpr ⟨vendor, hv, hm⟩, hdesc⟩
  · rintro ⟨model, hfound, hdesc⟩
    obtain ⟨vendor, hv, hm⟩ := Option.bind_eq_some_iff.mp hfound
    exact ⟨vendor, hv, model, hm, hdesc⟩

theorem getSubsystemInfo_eq_ok_iff_answer {vendorId modelId subVendorId subDeviceId info : Text} :
    getSubsystemInfo db vendorId modelId subVendorId subDeviceId = .ok info ↔
      answer db (.subsystem vendorId modelId (subVendorId ++ ' ' :: subDeviceId)) = some info := by
  rw [getSubsystemInfo_eq_ok_iff, answer, Option.bind_eq_some_iff]
  constructor
  · rintro ⟨vendor, hv, model, hm, hinfo⟩
    exact ⟨model, Option.bind_eq_some_iff.mpr ⟨vendor, hv, hm⟩, hinfo⟩
  · rintro ⟨model, hfound, hinfo⟩
    obtain ⟨vendor, hv, hm⟩ := Option.bind_eq_some_iff.mp hfound
    exact ⟨vendor, hv, model, hm, hinfo⟩

/-- The lookups give the listed names when the answers to what they ask are the entries. -/
theorem looksUp_iff_answer : LooksUp db listing ↔ ∀ key name, key.Asked →
    (answer db key = some name ↔ (key, name) ∈ listing.entries) := by
  constructor
  · intro h key name hasked
    cases key with
    | vendor id =>
        rw [← getVendorName_eq_ok_iff_answer, h.vendorName, Listing.mem_entries_vendor]
    | model vendorId id =>
        rw [← getModel_eq_ok_iff_answer, h.model, Listing.mem_entries_model]
    | subsystem vendorId modelId pair =>
        obtain ⟨subVendorId, subDeviceId, rfl, -⟩ := List.eq_append_cons_of_mem hasked
        rw [← getSubsystemInfo_eq_ok_iff_answer, h.subsystemInfo, Listing.mem_entries_subsystem]
        simp only [Subsystem.pair_eq_iff, and_assoc]
  · intro h
    constructor
    · intro vendorId name
      have hasked : (Key.vendor vendorId).Asked := trivial
      rw [getVendorName_eq_ok_iff_answer, h _ _ hasked, Listing.mem_entries_vendor]
    · intro vendorId modelId desc
      have hasked : (Key.model vendorId modelId).Asked := trivial
      rw [getModel_eq_ok_iff_answer, h _ _ hasked, Listing.mem_entries_model]
    · intro vendorId modelId subVendorId subDeviceId info
      have hasked : (Key.subsystem vendorId modelId (subVendorId ++ ' ' :: subDeviceId)).Asked :=
        List.mem_append_right _ List.mem_cons_self
      rw [getSubsystemInfo_eq_ok_iff_answer, h _ _ hasked, Listing.mem_entries_subsystem]
      simp only [Subsystem.pair_eq_iff, and_assoc]

end Lookups

/-! ### What comes after a listing -/

section Tails

variable {listing : Listing} {s : Sheet}

/-- The answers to what a lookup can ask are the entries of the listing. -/
def Answers (s : Sheet) (listing : Listing) : Prop :=
  ∀ key name, key.Asked → (s.answers key = some name ↔ (key, name) ∈ listing.entries)

theorem Listing.asked_of_mem {e : Entry} (he : e ∈ listing.entries) : e.1.Asked := by
  obtain ⟨key, name⟩ := e
  cases key with
  | vendor id => trivial
  | model vendorId id => trivial
  | subsystem vendorId modelId pair =>
      obtain ⟨v, -, -, m, -, -, sub, -, rfl, -⟩ := Listing.mem_entries_subsystem.mp he
      exact List.mem_append_right _ List.mem_cons_self

theorem answers_listing_sheet : Answers listing.sheet listing :=
  fun _ _ _ => Listing.answers_sheet

theorem not_deviceClasses_of_mem {e : Entry} (he : e ∈ listing.entries) :
    e.1 ≠ Key.deviceClasses := listing.fresh_blank.proper e he

/-- An entry that is not listed stays, so that the answers are not those of the listing. -/
theorem not_answers_of_written {e : Entry} (hasked : e.1.Asked)
    (hnew : ∀ name, (e.1, name) ∉ listing.entries) (rest : List Text) :
    ¬ Answers ((s.write e).readLines rest).1 listing := by
  intro h
  have hkept := Sheet.answers_readLines (s.answers_write_self e) rest
  exact hnew _ ((h _ _ hasked).mp hkept)

/-- An entry that no lookup asks for changes neither the answers nor the places. -/
theorem answers_write_of_not_asked (h : Answers s listing) {e : Entry} (hasked : ¬ e.1.Asked) :
    Answers (s.write e) listing := by
  intro key name hkey
  have hne : key ≠ e.1 := by
    rintro rfl
    exact hasked hkey
  rw [Sheet.answers_write_of_ne hne]
  exact h key name hkey

theorem places_of_not_asked {e : Entry} (hasked : ¬ e.1.Asked) :
    (s.write e).curVendor = s.curVendor ∧ (s.write e).curModel = s.curModel := by
  obtain ⟨key, name⟩ := e
  cases key with
  | vendor id => exact absurd trivial hasked
  | model vendorId id => exact absurd trivial hasked
  | subsystem vendorId modelId pair => exact ⟨rfl, rfl⟩

/-- The entry of a line after the listing tells whether the line is harmless. -/
theorem harmless_iff {line : Text} {e : Entry}
    (he : entryOf line listing.lastVendor listing.lastModel = some e) :
    Harmless listing line ↔ (e.1.Asked → ∃ name, (e.1, name) ∈ listing.entries) := by
  rw [Harmless, he]
  constructor
  · intro hall
    exact hall e rfl
  · rintro hthis e' he'
    obtain rfl := Option.some.inj he'
    exact hthis

theorem beginsDeviceClasses_iff {line : Text} {e : Entry}
    (he : entryOf line listing.lastVendor listing.lastModel = some e) :
    BeginsDeviceClasses listing line ↔ e.1 = Key.deviceClasses := by
  rw [BeginsDeviceClasses, he]
  constructor
  · rintro ⟨name, hname⟩
    rw [Option.some.inj hname]
  · intro hkey
    exact ⟨e.2, congrArg some (Prod.ext hkey rfl)⟩

/-- A line without an entry is harmless. -/
theorem harmless_of_none {line : Text}
    (he : entryOf line listing.lastVendor listing.lastModel = none) :
    ¬ BeginsDeviceClasses listing line ∧ Harmless listing line := by
  constructor
  · rintro ⟨name, hname⟩
    rw [he] at hname
    cases hname
  · intro e he'
    rw [he] at he'
    cases he'

/-- A line whose question is answered already is harmless. -/
theorem harmless_of_answered {line : Text} {e : Entry} {found : Text} (h : Answers s listing)
    (he : entryOf line listing.lastVendor listing.lastModel = some e)
    (hanswer : s.answers e.1 = some found) :
    ¬ BeginsDeviceClasses listing line ∧ Harmless listing line := by
  rw [harmless_iff he, beginsDeviceClasses_iff he]
  have hlisted : e.1.Asked → (e.1, found) ∈ listing.entries :=
    fun hasked => (h _ _ hasked).mp hanswer
  refine ⟨fun hkey => ?_, fun hasked => ⟨found, hlisted hasked⟩⟩
  exact not_deviceClasses_of_mem (hlisted (hkey ▸ trivial)) hkey

/-- A line whose question has no answer, and that a lookup can ask, is not harmless. -/
theorem not_harmless_of_open {line : Text} {e : Entry} (h : Answers s listing)
    (he : entryOf line listing.lastVendor listing.lastModel = some e)
    (hanswer : s.answers e.1 = none) (hasked : e.1.Asked) :
    (∀ name, (e.1, name) ∉ listing.entries) ∧ ¬ Harmless listing line := by
  have hnew : ∀ name, (e.1, name) ∉ listing.entries := by
    intro name hmem
    rw [(h _ _ hasked).mpr hmem] at hanswer
    cases hanswer
  refine ⟨hnew, fun hharmless => ?_⟩
  obtain ⟨name, hmem⟩ := (harmless_iff he).mp hharmless hasked
  exact hnew name hmem

/-- Reading on after a listing keeps the answers when the lines are harmless, and only then. -/
theorem answers_readLines_iff_silent (rest : List Text) (h : Answers s listing)
    (hvendor : s.curVendor = listing.lastVendor) (hmodel : s.curModel = listing.lastModel) :
    Answers (s.readLines rest).1 listing ↔ Silent listing rest := by
  induction rest generalizing s with
  | nil => exact ⟨fun _ => trivial, fun _ => h⟩
  | cons line rest ih =>
      have hskip (hskipped : ¬ BeginsDeviceClasses listing (stripped line) ∧
          Harmless listing (stripped line)) : Silent listing (line :: rest) ↔ Silent listing rest :=
        ⟨fun hs => (hs.resolve_left hskipped.1).2, fun hs => Or.inr ⟨hskipped.2, hs⟩⟩
      cases he : entryOf (stripped line) listing.lastVendor listing.lastModel with
      | none =>
          rw [hskip (harmless_of_none he)]
          rw [← hvendor, ← hmodel] at he
          rw [Sheet.readLines_cons (Sheet.read_of_none he), ih h hvendor hmodel]
      | some e =>
          have hread := he
          rw [← hvendor, ← hmodel] at hread
          cases hanswer : s.answers e.1 with
          | some found =>
              rw [hskip (harmless_of_answered h he hanswer),
                Sheet.readLines_cons (Sheet.read_of_answered hread hanswer), ih h hvendor hmodel]
          | none =>
              by_cases hkey : e.1 = Key.deviceClasses
              · rw [Sheet.readLines, Sheet.read_of_deviceClasses hread hanswer hkey]
                exact iff_of_true h (Or.inl ((beginsDeviceClasses_iff he).mpr hkey))
              · have hends := (beginsDeviceClasses_iff he).not.mpr hkey
                rw [Sheet.readLines_cons (Sheet.read_of_new hread hanswer hkey)]
                by_cases hasked : e.1.Asked
                · -- What is written here stays to the end, so the answers are never right again.
                  obtain ⟨hnew, hharmful⟩ := not_harmless_of_open h he hanswer hasked
                  refine iff_of_false (not_answers_of_written hasked hnew rest) ?_
                  exact not_or_intro hends fun hs => hharmful hs.1
                · -- The sheet changes where no lookup looks, and its places stay.
                  have hharmless := (harmless_iff he).mpr fun ha => absurd ha hasked
                  obtain ⟨hv, hm⟩ := places_of_not_asked (s := s) hasked
                  rw [hskip ⟨hends, hharmless⟩, ih (answers_write_of_not_asked h hasked)
                    (hv.trans hvendor) (hm.trans hmodel)]

/-- The first line of the block of the device classes ends the list, unless its name is a
comment. -/
theorem answers_tail_iff (h : Answers s listing) (hvendor : s.curVendor = listing.lastVendor)
    (hmodel : s.curModel = listing.lastModel) (name : Name) (rest : List Text) :
    Answers (s.readLines (labelled kPciidsDeviceClassStartIndicator name :: rest)).1 listing ↔
      (name.text.head? = some kPciidsCommentChar → Silent listing rest) := by
  have hnone : s.answers Key.deviceClasses = none := by
    rw [Option.eq_none_iff_forall_not_mem]
    intro found hfound
    have hmem := (h Key.deviceClasses found trivial).mp hfound
    exact not_deviceClasses_of_mem hmem rfl
  obtain ⟨c, text, htext⟩ := List.exists_cons_of_ne_nil name.nonempty
  by_cases hc : c = kPciidsCommentChar
  · subst c
    have hstripped : stripped (labelled kPciidsDeviceClassStartIndicator name) =
        kPciidsDeviceClassStartIndicator := by
      rw [labelled, htext]
      rfl
    have hread : s.read (stripped (labelled kPciidsDeviceClassStartIndicator name)) =
        (s, true) := Sheet.read_of_none (by rw [hstripped]; rfl)
    rw [Sheet.readLines_cons hread, answers_readLines_iff_silent rest h hvendor hmodel, htext]
    exact ⟨fun hsilent _ => hsilent, fun hsilent => hsilent rfl⟩
  · have hspace : isSpace c = false := name.first c (by rw [htext]; rfl)
    have hlabel : kPciidsCommentChar ∉ kPciidsDeviceClassStartIndicator ++ [' ', ' '] := by decide
    obtain ⟨text', hstripped⟩ := stripped_append_cons text hlabel hc hspace
    have hentry : entryOf (stripped (labelled kPciidsDeviceClassStartIndicator name)) s.curVendor
        s.curModel = some (Key.deviceClasses, c :: text') := by
      rw [labelled, htext]
      change entryOf
        (stripped ((kPciidsDeviceClassStartIndicator ++ [' ', ' ']) ++ c :: text)) _ _ = _
      rw [hstripped]
      rfl
    rw [Sheet.readLines, Sheet.read_of_deviceClasses hentry hnone rfl, htext]
    refine ⟨fun _ hhead => absurd (Option.some.inj hhead) hc, fun _ => h⟩

end Tails

/-- Lookups give what the text lists, exactly when no listed name has a comment character and,
where the name of the device classes begins with one, the lines after it add nothing. -/
theorem looksUp_iff {text : Text} {listing : Listing} {tail : Option (Name × List Text)}
    (h : Lists text listing tail) :
    LooksUp (pciDB text) listing ↔
      (∀ e ∈ listing.entries, kPciidsCommentChar ∉ e.2) ∧
        ∀ name rest, tail = some (name, rest) → name.text.head? = some kPciidsCommentChar →
          Silent listing rest := by
  obtain ⟨front, htext, hfront⟩ := h
  have hlookups : LooksUp (pciDB text) listing ↔
      Answers (Sheet.blank.readLines (getlines text)).1 listing := by
    rw [looksUp_iff_answer, answer_pciDB]
    rfl
  by_cases hplain : ∀ e ∈ listing.entries, kPciidsCommentChar ∉ e.2
  · have hread : Sheet.blank.readLines front = (listing.sheet, true) := by
      rw [← Sheet.readLines_filter, hfront]
      exact readLines_vendors hplain listing.fresh_blank
    rw [hlookups, htext, Sheet.readLines_append hread]
    simp only [iff_true_intro hplain, true_and]
    cases tail with
    | none =>
        refine ⟨fun _ name rest hblock => ?_, fun _ => answers_listing_sheet⟩
        cases hblock
    | some block =>
        obtain ⟨name, rest⟩ := block
        rw [tailLines, answers_tail_iff answers_listing_sheet Listing.curVendor_sheet
          Listing.curModel_sheet]
        constructor
        · rintro hsilent name' rest' heq
          obtain ⟨rfl, rfl⟩ := Prod.mk.inj (Option.some.inj heq)
          exact hsilent
        · intro hall
          exact hall name rest rfl
  · refine iff_of_false (fun hlooks => hplain fun e he => ?_) fun hboth => hplain hboth.1
    have hlisted := (looksUp_iff_answer.mp hlooks e.1 e.2 (Listing.asked_of_mem he)).mpr he
    exact comment_not_mem_answer hlisted

/-- A vendor with a model and a subsystem, after a comment and before the device classes. -/
theorem looksUp_iff_8002 : ∃ listing : Listing, listing.vendors.length = 1 ∧
    LooksUp (pciDB "# x\n8002  Fake\n\n\t1314  HDMI\n\t\t174b 1001  90K\nffff  No\nC\n".toList)
      listing := by
  let subsystem : Subsystem :=
    ⟨.ofText "174b".toList (by decide), .ofText "1001".toList (by decide),
      .ofText "90K".toList (by decide)⟩
  let model : Model :=
    ⟨.ofText "1314".toList (by decide), .ofText "HDMI".toList (by decide), [subsystem],
      List.nodup_singleton _⟩
  let vendor : Vendor :=
    ⟨.ofText "8002".toList (by decide), .ofText "Fake".toList (by decide), [model],
      List.nodup_singleton _, by decide⟩
  let listing : Listing := ⟨[vendor], List.nodup_singleton _⟩
  let block : Name := .ofText "No".toList (by decide)
  have hlists : Lists
      "# x\n8002  Fake\n\n\t1314  HDMI\n\t\t174b 1001  90K\nffff  No\nC\n".toList
      listing (some (block, ["C".toList])) :=
    ⟨["# x".toList, vendor.line, [], model.line, subsystem.line], by decide, by decide⟩
  refine ⟨listing, rfl, (looksUp_iff hlists).mpr ⟨by decide, ?_⟩⟩
  intro name rest heq hhead
  obtain ⟨rfl, -⟩ := Prod.mk.inj (Option.some.inj heq)
  exact absurd hhead (by decide)

/-- The model of a vendor whose name begins with the comment character becomes a model of the
vendor before. -/
theorem model_of_other_vendor : ¬ ∀ (text : Text) (listing : Listing)
    (tail : Option (Name × List Text)), Lists text listing tail →
      LooksUp (pciDB text) listing := by
  intro h
  let model : Model :=
    ⟨.ofText "2309".toList (by decide), .ofText "Imagine".toList (by decide), [], List.nodup_nil⟩
  let first : Vendor :=
    ⟨.ofText "121a".toList (by decide), .ofText "3Dfx".toList (by decide), [], List.nodup_nil,
      by decide⟩
  let second : Vendor :=
    ⟨.ofText "105d".toList (by decide), .ofText "#9 Visual".toList (by decide), [model],
      List.nodup_singleton _, by decide⟩
  let listing : Listing := ⟨[first, second], by decide⟩
  have hlists : Lists "121a  3Dfx\n105d  #9 Visual\n\t2309  Imagine\n".toList listing none :=
    ⟨[first.line, second.line, model.line], by decide, by decide⟩
  have hfound : getModel (pciDB "121a  3Dfx\n105d  #9 Visual\n\t2309  Imagine\n".toList)
      "121a".toList "2309".toList = .ok "Imagine".toList := by decide
  obtain ⟨v, hv, hid, m, hm, -⟩ := ((h _ _ _ hlists).model _ _ _).mp hfound
  have hmodels : ∀ v ∈ listing.vendors, v.id.text = "121a".toList → v.models.length = 0 := by
    decide
  rw [List.length_eq_zero_iff.mp (hmodels v hv hid)] at hm
  cases hm

end Osquery.Tables.PciDatabase
