import Osquery.EventPublishers.AuditEvents
import Osquery.Foundation.TextSearch

/-!
# Audit messages parsed into records

A message is a header, the separator `): ` and fields. The time and the id of the record
are cut out of the header at fixed positions, and one pass over the rest collects the
fields: a space ends a field unless its value is enclosed in double quotes, the closing
quote ends one that is. The first value of a key stays, fields without a key are dropped,
and SELinux records are kept as they are.

## Implementation notes

A message is the list of its characters, which stand for bytes; the buffer behind it is
zeroed. The parts of a view of it come from a library: a part that begins after the end is
refused, one whose end does not wrap around is the part, and nothing is assumed of a count
so large that the end wraps around. No record stands for a call that throws, which ends the
process because the parser is `noexcept`.
-/

namespace Osquery.EventPublishers

open Foundation.Numeral Foundation.Changes Foundation.TextSearch

def AUDIT_FIRST_EVENT : ℤ := 1300
def AUDIT_INTEGRITY_LAST_MSG : ℤ := 1899
def AUDIT_KERNEL : ℤ := 2000
def AUDIT_FIRST_USER_MSG2 : ℤ := 2100
def AUDIT_LAST_USER_MSG2 : ℤ := 2999

/-- The types of messages that `AdjustAuditReply` gives a text. -/
def hasMessage (type : ℤ) : Bool :=
  decide (type = 1005 ∨ type = 1006 ∨ type = AUDIT_KERNEL ∨
    (AUDIT_FIRST_USER_MSG ≤ type ∧ type ≤ AUDIT_LAST_USER_MSG) ∨
    (AUDIT_FIRST_USER_MSG2 ≤ type ∧ type ≤ AUDIT_LAST_USER_MSG2) ∨
    (AUDIT_FIRST_EVENT ≤ type ∧ type ≤ AUDIT_INTEGRITY_LAST_MSG))

/-- A reply with its data, which is its message if the type is one that has a message. -/
structure AuditReply where
  type : ℤ
  message : List Char
  len_lt : message.length < 2 ^ 32

def npos : UInt64 := 0 - 1

/-- What is known of the text of a part of a view. -/
structure PartLaws (part : List Char → UInt64 → UInt64 → Option (List Char)) : Prop where
  out_of_range : ∀ view pos n, view.length < pos.toNat → part view pos n = none
  within : ∀ view pos n, pos.toNat ≤ view.length → pos.toNat + n.toNat < 2 ^ 64 ∨ n = npos →
    part view pos n = some ((view.drop pos.toNat).take n.toNat)

/-- A count that reaches beyond the end is cut. -/
def clampedPart (view : List Char) (pos n : UInt64) : Option (List Char) :=
  if view.length < pos.toNat then none else some ((view.drop pos.toNat).take n.toNat)

theorem clampedPart_laws : PartLaws clampedPart := by
  constructor
  · intro view pos n h
    rw [clampedPart, if_pos h]
  · intro view pos n h _
    rw [clampedPart, if_neg (Nat.not_lt.mpr h)]

/-- What the linear search over the fields remembers. -/
structure FieldTokenizer where
  key : List Char
  value : List Char
  found_assignment : Bool
  found_enclose : Bool
  fields : Std.ExtTreeMap String String

/-- A field is kept if it has a key that is new. -/
def emplaceField (key value : List Char) (fields : Std.ExtTreeMap String String) :
    Std.ExtTreeMap String String :=
  if key = [] then fields else fields.insertIfNew (String.ofList key) (String.ofList value)

def FieldTokenizer.clean (fields : Std.ExtTreeMap String String) : FieldTokenizer :=
  ⟨[], [], false, false, fields⟩

def tokenizeField (s : FieldTokenizer) (c : Char) : FieldTokenizer :=
  if (s.found_enclose && c == '"') || (!s.found_enclose && c == ' ') then
    let value := if c = '"' then s.value ++ [c] else s.value
    .clean (emplaceField s.key value s.fields)
  else if !s.found_assignment && c == ' ' then s
  else if s.found_assignment then
    { s with found_enclose := s.found_enclose || c == '"', value := s.value ++ [c] }
  else if c = '=' then { s with found_assignment := true }
  else { s with key := s.key ++ [c] }

/-- The fields when there was no trailing tokenizer. -/
def FieldTokenizer.finish (s : FieldTokenizer) : Std.ExtTreeMap String String :=
  emplaceField s.key s.value s.fields

section Parser

variable (part : List Char → UInt64 → UInt64 → Option (List Char))

def parseAuditReply (reply : AuditReply) : Option (Bool × AuditEventRecord) :=
  match find "): ".toList reply.message with
  | none => some (false, ⟨reply.type, 0, "", ∅, ""⟩)
  | some preamble_end => do
      let time ← part reply.message 6 10
      let audit_id ← part reply.message 6 (UInt64.ofNat preamble_end - 6)
      let time := (stoull (String.ofList time)).toOption.getD 0
      let audit_id := String.ofList audit_id
      if reply.type ∈ kSELinuxEventList then
        let raw_data := String.ofList (reply.message.takeWhile (· ≠ Char.ofNat 0))
        return (true, ⟨reply.type, time, audit_id, ∅, raw_data⟩)
      else
        let field_view ← part reply.message (UInt64.ofNat (preamble_end + 3)) npos
        let fields := (field_view.foldl tokenizeField (.clean ∅)).finish
        return (true, ⟨reply.type, time, audit_id, fields, ""⟩)

/-- The parser on a reply of any type. The view of a message that is not there cannot be read. -/
def parseAdjustedReply (reply : AuditReply) : Option (Bool × AuditEventRecord) :=
  if hasMessage reply.type ∨ reply.message = [] then parseAuditReply part reply else none

end Parser

/-! ### Messages with fields -/

/-- Six characters before the id of a record, which is as long as there is no separator. -/
structure AuditHeader where
  lead : String
  id : String
  lead_length : lead.toList.length = 6
  not_separated : ¬"): ".toList <:+: (lead ++ id).toList

def Bare (value : String) : Prop := ∀ c ∈ value.toList, c ≠ ' ' ∧ c ≠ '"'

def Enclosed (value : String) : Prop :=
  ∃ inner, value.toList = '"' :: (inner ++ ['"']) ∧ '"' ∉ inner

structure AuditField where
  key : String
  value : String
  key_ok : ∀ c ∈ key.toList, c ≠ ' ' ∧ c ≠ '='
  value_ok : Bare value ∨ Enclosed value

def AuditField.text (field : AuditField) : List Char :=
  field.key.toList ++ '=' :: field.value.toList

/-- A text of fields that are separated by at least one space. -/
inductive Rendered : List AuditField → List Char → Prop
  | nil : Rendered [] []
  | last (field : AuditField) : Rendered [field] field.text
  | cons (field : AuditField) {fields : List AuditField} {text : List Char} :
      Rendered fields text → Rendered (field :: fields) (field.text ++ ' ' :: text)
  | space {fields : List AuditField} {text : List Char} :
      Rendered fields text → Rendered fields (' ' :: text)

/-- The fields of a record, each at its first value. -/
def collectFields (fields : List AuditField) (into : Std.ExtTreeMap String String) :
    Std.ExtTreeMap String String :=
  fields.foldl (fun into field => emplaceField field.key.toList field.value.toList into) into

theorem emplaceField_toList (key value : String) (fields : Std.ExtTreeMap String String) :
    emplaceField key.toList value.toList fields =
      if key = "" then fields else fields.insertIfNew key value := by
  rw [emplaceField, String.ofList_toList, String.ofList_toList]
  simp

theorem collectFields_cons (field : AuditField) (fields : List AuditField)
    (into : Std.ExtTreeMap String String) :
    collectFields (field :: fields) into =
      collectFields fields
        (if field.key = "" then into else into.insertIfNew field.key field.value) := by
  rw [collectFields, List.foldl_cons, emplaceField_toList, collectFields]

theorem getElem?_collectFields (fields : List AuditField) (into : Std.ExtTreeMap String String)
    {key : String} (hkey : key ≠ "") :
    (collectFields fields into)[key]? =
      into[key]?.or ((fields.find? fun field => field.key = key).map AuditField.value) := by
  induction fields generalizing into with
  | nil => simp [collectFields]
  | cons field fields ih =>
      rw [collectFields_cons, ih]
      by_cases hfield : field.key = key
      · have hnonempty : field.key ≠ "" := by rwa [hfield]
        rw [if_neg hnonempty, getElem?_insertIfNew_eq, if_pos hfield.symm, hfield,
          List.find?_cons_of_pos (by simpa using hfield)]
        cases into[key]? with
        | none => rfl
        | some value => rfl
      · rw [List.find?_cons_of_neg (by simpa using hfield)]
        split
        · rfl
        · rw [getElem?_insertIfNew_eq, if_neg (Ne.symm hfield)]

theorem collectFields_empty_key (fields : List AuditField)
    {into : Std.ExtTreeMap String String} (hinto : into[""]? = none) :
    (collectFields fields into)[""]? = none := by
  induction fields generalizing into with
  | nil => exact hinto
  | cons field fields ih =>
      rw [collectFields_cons]
      apply ih
      split
      · exact hinto
      · next hfield => rw [getElem?_insertIfNew_eq, if_neg (Ne.symm hfield), hinto]

/-- With different keys every field is found. -/
theorem getElem?_collectFields_of_nodup {fields : List AuditField}
    (hnodup : (fields.map AuditField.key).Nodup) (hnonempty : ∀ field ∈ fields, field.key ≠ "")
    {key value : String} :
    (collectFields fields ∅)[key]? = some value ↔
      ∃ field ∈ fields, field.key = key ∧ field.value = value := by
  by_cases hkey : key = ""
  · rw [hkey, collectFields_empty_key fields (by simp)]
    constructor
    · intro h
      cases h
    · rintro ⟨field, hfield, hempty, _⟩
      exact absurd hempty (hnonempty field hfield)
  · rw [getElem?_collectFields fields ∅ hkey, Std.ExtTreeMap.getElem?_empty, Option.none_or]
    clear hnonempty
    induction fields with
    | nil => simp
    | cons field fields ih =>
        rw [List.map_cons, List.nodup_cons] at hnodup
        by_cases hfield : field.key = key
        · rw [List.find?_cons_of_pos (by simpa using hfield), Option.map_some, Option.some.injEq]
          constructor
          · intro hvalue
            exact ⟨field, List.mem_cons_self, hfield, hvalue⟩
          · rintro ⟨other, hother, hsame, hvalue⟩
            obtain rfl | hrest := List.mem_cons.mp hother
            · exact hvalue
            · rw [hfield, ← hsame] at hnodup
              exact absurd (List.mem_map_of_mem hrest) hnodup.1
        · rw [List.find?_cons_of_neg (by simpa using hfield), ih hnodup.2]
          simp [hfield]

/-! ### The search over the fields -/

/-- A space or the end of the message gives the same fields. -/
structure FieldTokenizer.Settled (s : FieldTokenizer) (fields : Std.ExtTreeMap String String) :
    Prop where
  finished : s.finish = fields
  spaced : tokenizeField s ' ' = .clean fields

theorem FieldTokenizer.settled_clean (fields : Std.ExtTreeMap String String) :
    (FieldTokenizer.clean fields).Settled fields := ⟨rfl, rfl⟩

/-- Characters that are appended one after another are appended together. -/
theorem foldl_collects {state : List Char → FieldTokenizer} {text : List Char}
    (hstep : ∀ c ∈ text, ∀ before, tokenizeField (state before) c = state (before ++ [c]))
    (before : List Char) : text.foldl tokenizeField (state before) = state (before ++ text) := by
  induction text generalizing before with
  | nil => simp
  | cons c text ih =>
      obtain ⟨hc, hrest⟩ := List.forall_mem_cons.mp hstep
      rw [List.foldl_cons, hc, ih hrest, List.append_assoc, List.singleton_append]

theorem foldl_key {key : List Char} (hkey : ∀ c ∈ key, c ≠ ' ' ∧ c ≠ '=') (before : List Char)
    (fields : Std.ExtTreeMap String String) :
    key.foldl tokenizeField ⟨before, [], false, false, fields⟩ =
      ⟨before ++ key, [], false, false, fields⟩ :=
  @foldl_collects (⟨·, [], false, false, fields⟩) key
    (fun c hc before => by simp [tokenizeField, hkey c hc]) before

theorem foldl_bare {value : List Char} (hvalue : ∀ c ∈ value, c ≠ ' ' ∧ c ≠ '"')
    (key before : List Char) (fields : Std.ExtTreeMap String String) :
    value.foldl tokenizeField ⟨key, before, true, false, fields⟩ =
      ⟨key, before ++ value, true, false, fields⟩ :=
  @foldl_collects (⟨key, ·, true, false, fields⟩) value
    (fun c hc before => by simp [tokenizeField, hvalue c hc]) before

theorem foldl_inner {inner : List Char} (hinner : '"' ∉ inner) (key before : List Char)
    (fields : Std.ExtTreeMap String String) :
    inner.foldl tokenizeField ⟨key, before, true, true, fields⟩ =
      ⟨key, before ++ inner, true, true, fields⟩ :=
  @foldl_collects (⟨key, ·, true, true, fields⟩) inner
    (fun c hc before => by simp [tokenizeField, ne_of_mem_of_not_mem hc hinner]) before

theorem settled_text (field : AuditField) (fields : Std.ExtTreeMap String String) :
    (field.text.foldl tokenizeField (.clean fields)).Settled
      (emplaceField field.key.toList field.value.toList fields) := by
  rw [AuditField.text, List.foldl_append, FieldTokenizer.clean, foldl_key field.key_ok,
    List.nil_append, List.foldl_cons]
  have hassign : tokenizeField ⟨field.key.toList, [], false, false, fields⟩ '=' =
      ⟨field.key.toList, [], true, false, fields⟩ := by
    simp [tokenizeField]
  rw [hassign]
  obtain hbare | ⟨inner, hvalue, hinner⟩ := field.value_ok
  · rw [foldl_bare hbare, List.nil_append]
    exact ⟨rfl, by simp [tokenizeField]⟩
  · have hopen : tokenizeField ⟨field.key.toList, [], true, false, fields⟩ '"' =
        ⟨field.key.toList, ['"'], true, true, fields⟩ := by
      simp [tokenizeField]
    rw [hvalue, List.foldl_cons, hopen, List.foldl_append, foldl_inner hinner]
    have hclose : tokenizeField ⟨field.key.toList, ['"'] ++ inner, true, true, fields⟩ '"' =
        .clean (emplaceField field.key.toList ('"' :: (inner ++ ['"'])) fields) := by
      simp [tokenizeField]
    rw [List.foldl_cons, List.foldl_nil, hclose]
    exact FieldTokenizer.settled_clean _

/-- The search collects the fields of a text. -/
theorem finish_rendered {fields : List AuditField} {text : List Char}
    (h : Rendered fields text) (into : Std.ExtTreeMap String String) :
    (text.foldl tokenizeField (.clean into)).finish = collectFields fields into := by
  induction h generalizing into with
  | nil => rfl
  | last field => exact (settled_text field into).finished
  | cons field _ ih =>
      rw [List.foldl_append, List.foldl_cons, (settled_text field into).spaced, ih]
      rfl
  | space _ ih =>
      rw [List.foldl_cons, (FieldTokenizer.settled_clean into).spaced, ih]

/-! ### Whole messages -/

def AuditHeader.text (header : AuditHeader) : List Char := (header.lead ++ header.id).toList

theorem AuditHeader.text_eq (header : AuditHeader) :
    header.text = header.lead.toList ++ header.id.toList := by
  rw [AuditHeader.text, String.toList_append]

/-- The number that the ten characters after the lead begin with. -/
def timeOf (text : List Char) : UInt64 :=
  (stoull (String.ofList (text.take 10))).toOption.getD 0

section Laws

variable {part : List Char → UInt64 → UInt64 → Option (List Char)} (hpart : PartLaws part)

theorem find_separator (header : AuditHeader) (body : List Char) :
    find "): ".toList (header.text ++ "): ".toList ++ body) = some header.text.length :=
  find_append (by decide) header.not_separated body

include hpart

theorem part_id {reply : AuditReply} {header : AuditHeader} {rest : List Char}
    (hmessage : reply.message = header.text ++ rest) :
    part reply.message 6 (UInt64.ofNat header.text.length - 6) = some header.id.toList := by
  have hshort := reply.len_lt
  have hheader : header.text.length = 6 + header.id.toList.length := by
    rw [header.text_eq, List.length_append, header.lead_length]
  have hlength : reply.message.length = header.text.length + rest.length := by
    rw [hmessage, List.length_append]
  have hcount : (UInt64.ofNat header.text.length - 6).toNat = header.id.toList.length := by
    rw [UInt64.toNat_sub, UInt64.toNat_ofNat']
    change (2 ^ 64 - 6 + header.text.length % 2 ^ 64) % 2 ^ 64 = _
    omega
  rw [hpart.within _ _ _ (by change 6 ≤ _; omega)
    (Or.inl (by rw [hcount]; change 6 + _ < _; omega)), hcount]
  change some ((reply.message.drop 6).take _) = _
  rw [hmessage, header.text_eq, List.append_assoc, ← header.lead_length, List.drop_left,
    List.take_left]

/-- Past a beginning, the rest of a message is found. -/
theorem part_rest {reply : AuditReply} {before rest : List Char}
    (hmessage : reply.message = before ++ rest) :
    part reply.message (UInt64.ofNat before.length) npos = some rest := by
  have hshort := reply.len_lt
  have hlength : reply.message.length = before.length + rest.length := by
    rw [hmessage, List.length_append]
  have hpos : (UInt64.ofNat before.length).toNat = before.length := by
    rw [UInt64.toNat_ofNat']
    omega
  have hview : reply.message.drop before.length = rest := by
    rw [hmessage, List.drop_left]
  rw [hpart.within _ _ _ (by rw [hpos]; omega) (Or.inr rfl), hpos, hview]
  apply congrArg some
  apply List.take_of_length_le
  change _ ≤ 18446744073709551615
  omega

/-- A message with a header becomes a record, raw or with the fields that were found. -/
theorem parseAuditReply_of_header {reply : AuditReply} {header : AuditHeader}
    {body : List Char} (hmessage : reply.message = header.text ++ "): ".toList ++ body) :
    parseAuditReply part reply =
      some (true,
        if reply.type ∈ kSELinuxEventList then
          ⟨reply.type, timeOf (reply.message.drop 6), header.id, ∅,
            String.ofList (reply.message.takeWhile (· ≠ Char.ofNat 0))⟩
        else
          ⟨reply.type, timeOf (reply.message.drop 6), header.id,
            (body.foldl tokenizeField (.clean ∅)).finish, ""⟩) := by
  have hlength : 6 ≤ reply.message.length := by
    rw [hmessage, header.text_eq]
    simp only [List.length_append, header.lead_length]
    omega
  have hfind : find "): ".toList reply.message = some header.text.length := by
    rw [hmessage]
    exact find_separator header body
  have htime : part reply.message 6 10 = some ((reply.message.drop 6).take 10) :=
    hpart.within _ _ _ hlength (Or.inl (by decide))
  have hid := part_id hpart (hmessage.trans (List.append_assoc _ _ _))
  have hfields : part reply.message (UInt64.ofNat (header.text.length + 3)) npos = some body := by
    have hthree : (header.text ++ "): ".toList).length = header.text.length + 3 :=
      List.length_append
    rw [← hthree]
    exact part_rest hpart hmessage
  rw [parseAuditReply, hfind]
  simp only [htime, hid, hfields, Option.bind_eq_bind, Option.bind_some, String.ofList_toList]
  split
  · rfl
  · rfl

omit hpart in
/-- The seconds of a header, if they have at most ten digits. -/
theorem timeOf_seconds {seconds : ℕ} (hseconds : seconds < 10 ^ 10) (rest : List Char) :
    timeOf ((toText seconds).toList ++ '.' :: rest) = UInt64.ofNat seconds := by
  have hdigits : (toText seconds).toList.length ≤ 10 := by
    rw [toText_toList]
    exact (Nat.length_toDigits_le_iff (by decide) (by decide)).mpr hseconds
  have hread : leading (String.ofList (((toText seconds).toList ++ '.' :: rest).take 10)) =
      some (false, Nat.ofDigitChars 10 (toText seconds).toList 0) := by
    apply @leading_of_digits _ _ (('.' :: rest).take (10 - (toText seconds).toList.length))
    · rw [String.toList_ofList, List.take_append, List.take_of_length_le hdigits]
    · exact toText_ne_nil seconds
    · exact fun c hc => isDigit_of_mem_toText hc
    · intro c hc
      rw [List.head?_take] at hc
      split at hc
      · cases hc
      · obtain rfl := Option.some.inj hc
        rfl
  have hsmall : seconds < 2 ^ 64 := by omega
  rw [timeOf, stoull, hread, toText_toList, Nat.ofDigitChars_toDigits (by decide) (by decide)]
  simp only [if_pos hsmall]
  rfl

/-- A message with a header and fields becomes a record that has the time and the id of the
header and each key with its first value. -/
theorem parseAuditReply_collects {reply : AuditReply} {header : AuditHeader}
    {fields : List AuditField} {body : List Char} (hbody : Rendered fields body)
    (hmessage : reply.message = header.text ++ "): ".toList ++ body)
    (htype : reply.type ∉ kSELinuxEventList) :
    ∃ event_record, parseAuditReply part reply = some (true, event_record) ∧
      event_record.type = reply.type ∧ event_record.audit_id = header.id ∧
      (∀ seconds < 10 ^ 10, ∀ rest, header.id = toText seconds ++ "." ++ rest →
        event_record.time.toNat = seconds) ∧
      event_record.fields[""]? = none ∧
      ∀ key ≠ "", event_record.fields[key]? =
        (fields.find? fun field => field.key = key).map AuditField.value := by
  refine ⟨_, (parseAuditReply_of_header hpart hmessage).trans (by rw [if_neg htype]), rfl, rfl, ?_,
    ?_, ?_⟩
  · intro seconds hseconds rest hid
    have hview : reply.message.drop 6 =
        (toText seconds).toList ++ '.' :: (rest.toList ++ "): ".toList ++ body) := by
      rw [hmessage, header.text_eq, List.append_assoc, List.append_assoc, ← header.lead_length,
        List.drop_left, hid, String.toList_append, String.toList_append]
      simp
    rw [hview, timeOf_seconds hseconds, UInt64.toNat_ofNat', Nat.mod_eq_of_lt (by omega)]
  · rw [finish_rendered hbody]
    exact collectFields_empty_key fields (by simp)
  · intro key hkey
    rw [finish_rendered hbody, getElem?_collectFields fields ∅ hkey]
    simp

/-- The count of an id wraps around only before a lead, and to no limit just before its end. -/
theorem isSome_part_id {reply : AuditReply} {preamble_end : ℕ}
    (hend : preamble_end + 3 ≤ reply.message.length) (hfive : 5 ≤ preamble_end) :
    (part reply.message 6 (UInt64.ofNat preamble_end - 6)).isSome := by
  have hshort := reply.len_lt
  have hcount : (UInt64.ofNat preamble_end - 6).toNat =
      (2 ^ 64 - 6 + preamble_end) % 2 ^ 64 := by
    have hid : preamble_end % 2 ^ 64 = preamble_end := Nat.mod_eq_of_lt (by omega)
    rw [UInt64.toNat_sub, UInt64.toNat_ofNat', hid]
    rfl
  have hsmall : 6 + (UInt64.ofNat preamble_end - 6).toNat < 2 ^ 64 ∨
      UInt64.ofNat preamble_end - 6 = npos := by
    obtain hlt | rfl := Nat.lt_or_eq_of_le hfive
    · left
      omega
    · right
      rfl
  rw [hpart.within reply.message 6 _ (by change 6 ≤ _; omega) hsmall]
  rfl

/-- The parser returns for a message unless a separator stands in it and it is too short for the
lead of a header, or the library refuses the count that wraps around before a lead. -/
theorem isSome_parseAuditReply_iff (reply : AuditReply) :
    (parseAuditReply part reply).isSome ↔
      ∀ preamble_end, find "): ".toList reply.message = some preamble_end →
        6 ≤ reply.message.length ∧
          (preamble_end < 5 →
            (part reply.message 6 (UInt64.ofNat preamble_end - 6)).isSome) := by
  have hshort := reply.len_lt
  rw [parseAuditReply]
  cases hfind : find "): ".toList reply.message with
  | none => simp
  | some preamble_end =>
      have hend : preamble_end + 3 ≤ reply.message.length := find_add_length_le hfind
      have hpos : (UInt64.ofNat (preamble_end + 3)).toNat = preamble_end + 3 := by
        rw [UInt64.toNat_ofNat']
        omega
      have hfields := hpart.within reply.message (UInt64.ofNat (preamble_end + 3)) npos
        (by rw [hpos]; exact hend) (Or.inr rfl)
      by_cases hlong : 6 ≤ reply.message.length
      · have htime := hpart.within reply.message 6 10 hlong (Or.inl (by decide))
        cases hid : part reply.message 6 (UInt64.ofNat preamble_end - 6) with
        | some audit_id =>
            simp only [htime, hid, hfields, Option.bind_eq_bind, Option.bind_some]
            split
            · simp [hlong, hid]
            · simp [hlong, hid]
        | none =>
            have hbefore : preamble_end < 5 := by
              by_contra hafter
              have hsome := isSome_part_id hpart hend (Nat.le_of_not_lt hafter)
              rw [hid] at hsome
              cases hsome
            simp [htime, hid, hbefore]
      · have htime := hpart.out_of_range reply.message 6 10 (Nat.lt_of_not_le hlong)
        simp [htime, hlong]

/-- The parser returns for a reply exactly if the reply has a message, or has no data, and the
message is not too short for the parts that are cut out before its separator. -/
theorem parseAuditReply_isSome_iff (reply : AuditReply) :
    (parseAdjustedReply part reply).isSome ↔
      (hasMessage reply.type ∨ reply.message = []) ∧
        ∀ preamble_end, find "): ".toList reply.message = some preamble_end →
          6 ≤ reply.message.length ∧
            (preamble_end < 5 →
              (part reply.message 6 (UInt64.ofNat preamble_end - 6)).isSome) := by
  rw [parseAdjustedReply]
  split
  · rename_i hmessage
    rw [isSome_parseAuditReply_iff hpart, and_iff_right hmessage]
  · rename_i hnone
    exact iff_of_false Bool.false_ne_true fun h => hnone h.1

end Laws

/-! ### A message of each kind -/

def sampleHeader : AuditHeader where
  lead := "audit("
  id := "1440542781.644:403030"
  lead_length := by decide
  not_separated := by decide

def argumentFields : List AuditField :=
  [⟨"argc", "2", forall_mem_of_all (by decide), Or.inl (forall_mem_of_all (by decide))⟩,
    ⟨"a0", "\"ls\"", forall_mem_of_all (by decide),
      Or.inr ⟨"ls".toList, by decide, by decide⟩⟩]

def sampleReply (type : ℤ) : AuditReply where
  type := type
  message := "audit(1440542781.644:403030): argc=2 a0=\"ls\"".toList
  len_lt := by decide

theorem argumentFields_rendered : Rendered argumentFields "argc=2 a0=\"ls\"".toList :=
  .cons _ (.last _)

theorem parseAuditReply_collects_sample :
    ∃ event_record, parseAuditReply clampedPart (sampleReply 1309) = some (true, event_record) ∧
      event_record.type = 1309 ∧ event_record.audit_id = "1440542781.644:403030" ∧
      (∀ seconds < 10 ^ 10, ∀ rest, "1440542781.644:403030" = toText seconds ++ "." ++ rest →
        event_record.time.toNat = seconds) ∧
      event_record.fields[""]? = none ∧
      ∀ key ≠ "", event_record.fields[key]? =
        (argumentFields.find? fun field => field.key = key).map AuditField.value :=
  @parseAuditReply_collects _ clampedPart_laws (sampleReply 1309) sampleHeader _ _
    argumentFields_rendered (by decide) (by decide)

/-- The fields of an SELinux record are not collected. -/
theorem selinux_fields_dropped :
    ¬∀ (reply : AuditReply) (header : AuditHeader) (fields : List AuditField) (body : List Char),
      Rendered fields body → reply.message = header.text ++ "): ".toList ++ body →
        ∃ event_record, parseAuditReply clampedPart reply = some (true, event_record) ∧
          ∀ key, event_record.fields[key]? =
            (fields.find? fun field => field.key = key).map AuditField.value := by
  intro hall
  obtain ⟨event_record, hparse, hkeys⟩ := hall (sampleReply 1400) sampleHeader argumentFields _
    argumentFields_rendered (by decide)
  rw [@parseAuditReply_of_header _ clampedPart_laws (sampleReply 1400) sampleHeader
    "argc=2 a0=\"ls\"".toList (by decide)] at hparse
  obtain rfl := (Prod.mk.inj (Option.some.inj hparse)).2
  have hargc := hkeys "argc"
  revert hargc
  decide

theorem parseAuditReply_isSome_iff_sample :
    (parseAdjustedReply clampedPart (sampleReply 1309)).isSome ↔
      (hasMessage (sampleReply 1309).type ∨ (sampleReply 1309).message = []) ∧
        ∀ preamble_end, find "): ".toList (sampleReply 1309).message = some preamble_end →
          6 ≤ (sampleReply 1309).message.length ∧
            (preamble_end < 5 →
              (clampedPart (sampleReply 1309).message 6 (UInt64.ofNat preamble_end - 6)).isSome) :=
  parseAuditReply_isSome_iff clampedPart_laws (sampleReply 1309)

/-- A separator alone ends the process. -/
theorem short_message_throws :
    ¬∀ part, PartLaws part → ∀ reply, (parseAdjustedReply part reply).isSome := by
  intro hall
  have hreturns := hall clampedPart clampedPart_laws ⟨1309, "): ".toList, by decide⟩
  revert hreturns
  decide

/-- So does any data of a type without a message. -/
example : parseAdjustedReply clampedPart (sampleReply 1210) = none := rfl

end Osquery.EventPublishers
