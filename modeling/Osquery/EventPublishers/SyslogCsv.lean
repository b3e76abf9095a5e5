import Osquery.Core.Rows
import Osquery.Foundation.Separated

/-!
# The fields of a line from rsyslog

rsyslog writes a line of fields with commas between them. A field stands in double quotes, and a
quote in it is written twice. The separator reads one field at a time and remembers a comma at
the end of it, since an empty field follows a comma that ends the line.

## Implementation notes

A character stands for a byte. The separator is called until it has no more fields, and not at
all for an empty line, which is what `boost::tokenizer` does.
-/

namespace Osquery.EventPublishers.SyslogCsv

open Core.Rows Foundation.Separated

/-- A token, what follows it, and whether a comma ended it. -/
structure Token where
  tok : List Char
  next : List Char
  last_ : Bool

/-- The loop over the characters of one token. -/
def scan : Bool → List Char → List Char → Token
  | _, [], tok => ⟨tok, [], false⟩
  | in_quote, c :: next, tok =>
      if c = ',' then
        if in_quote = false then ⟨tok, next, true⟩ else scan in_quote next (tok ++ [c])
      else if c = '"' then
        if in_quote = false then scan true next tok
        else
          match next with
          | '"' :: next => scan in_quote next (tok ++ ['"'])
          | next => scan false next tok
      else scan in_quote next (tok ++ [c])

/-- A call of the separator; at the end there is an empty field only after a comma. -/
def RsyslogCsvSeparator (last_ : Bool) (next : List Char) : Option Token :=
  if next = [] then (if last_ then some ⟨[], [], false⟩ else none)
  else some (scan false next [])

/-! ### One character -/

theorem scan_comma (next tok : List Char) : scan false (',' :: next) tok = ⟨tok, next, true⟩ := by
  rw [scan.eq_def]
  rfl

theorem scan_open (next tok : List Char) : scan false ('"' :: next) tok = scan true next tok := by
  rw [scan.eq_def]
  rfl

/-- A quote that is written twice is one, and the field goes on. -/
theorem scan_double (next tok : List Char) :
    scan true ('"' :: '"' :: next) tok = scan true next (tok ++ ['"']) := by
  rfl

theorem scan_close {next : List Char} (h : next.head? ≠ some '"') (tok : List Char) :
    scan true ('"' :: next) tok = scan false next tok := by
  cases next with
  | nil => rfl
  | cons c next =>
      have hc : c ≠ '"' := fun heq => h (congrArg some heq)
      rw [scan.eq_def]
      simp [hc]

theorem scan_other {in_quote : Bool} {c : Char} (hquote : c ≠ '"')
    (hcomma : in_quote = false → c ≠ ',') (next tok : List Char) :
    scan in_quote (c :: next) tok = scan in_quote next (tok ++ [c]) := by
  rw [scan.eq_def]
  cases in_quote with
  | false => simp [hcomma rfl, hquote]
  | true => simp [hquote]

/-! ### All tokens -/

/-- A token that no comma ended is the last one, and the others leave less to read. -/
def Token.Leaves (token : Token) (length : ℕ) : Prop :=
  if token.last_ then token.next.length < length else token.next = []

theorem Token.Leaves.mono {token : Token} {length length' : ℕ} (h : token.Leaves length)
    (hle : length ≤ length') : token.Leaves length' := by
  rw [Leaves] at h ⊢
  split at h
  · next hlast =>
      rw [if_pos hlast]
      exact h.trans_le hle
  · next hlast =>
      rw [if_neg hlast]
      exact h

theorem scan_next (in_quote : Bool) (next tok : List Char) :
    (scan in_quote next tok).Leaves next.length := by
  -- a quote that is written twice takes two characters, so the induction is on their number
  induction hlength : next.length using Nat.strong_induction_on generalizing in_quote next tok with
  | _ n ih =>
      cases next with
      | nil =>
          rw [scan.eq_def]
          exact rfl
      | cons c next =>
          rw [List.length_cons] at hlength
          have hshorter (b : Bool) (rest tok' : List Char) (hle : rest.length ≤ next.length) :
              (scan b rest tok').Leaves n :=
            (ih rest.length (by omega) b rest tok' rfl).mono (by omega)
          by_cases hquote : c = '"'
          · subst hquote
            cases in_quote with
            | false =>
                rw [scan_open]
                exact hshorter true next tok (le_refl _)
            | true =>
                by_cases hdouble : next.head? = some '"'
                · obtain ⟨rest, rfl⟩ := List.head?_eq_some_iff.mp hdouble
                  rw [scan_double]
                  exact hshorter true rest _ (Nat.le_succ _)
                · rw [scan_close hdouble]
                  exact hshorter false next tok (le_refl _)
          · by_cases hcomma : in_quote = false → c ≠ ','
            · rw [scan_other hquote hcomma]
              exact hshorter in_quote next _ (le_refl _)
            · push Not at hcomma
              obtain ⟨rfl, rfl⟩ := hcomma
              rw [scan_comma, Token.Leaves, if_pos rfl]
              exact (Nat.lt_succ_self next.length).trans_eq hlength

theorem separator_next {last_ : Bool} {next : List Char} {token : Token}
    (h : RsyslogCsvSeparator last_ next = some token) :
    2 * token.next.length + (if token.last_ then 1 else 0) <
      2 * next.length + (if last_ then 1 else 0) := by
  rw [RsyslogCsvSeparator] at h
  split at h
  · next hend =>
      split at h
      · next hlast =>
          obtain rfl := Option.some.inj h
          simp [hend, hlast]
      · exact absurd h (by simp)
  · next hmore =>
      obtain rfl := Option.some.inj h
      have hlength := List.length_pos_of_ne_nil hmore
      have hnext := scan_next false next []
      rw [Token.Leaves] at hnext
      split at hnext
      · next hlast =>
          rw [if_pos hlast]
          omega
      · next hlast =>
          rw [if_neg hlast, hnext, List.length_nil]
          omega

/-- The tokens until the separator has no more. -/
def tokens (last_ : Bool) (next : List Char) : List String :=
  match _h : RsyslogCsvSeparator last_ next with
  | none => []
  | some token => String.ofList token.tok :: tokens token.last_ token.next
termination_by 2 * next.length + (if last_ then 1 else 0)
decreasing_by exact separator_next _h

theorem tokens_of_none {last_ : Bool} {next : List Char}
    (h : RsyslogCsvSeparator last_ next = none) : tokens last_ next = [] := by
  rw [tokens]
  split <;> simp_all

theorem tokens_of_some {last_ : Bool} {next : List Char} {token : Token}
    (h : RsyslogCsvSeparator last_ next = some token) :
    tokens last_ next = String.ofList token.tok :: tokens token.last_ token.next := by
  rw [tokens]
  split <;> simp_all

def tokenize (line : String) : List String :=
  if line = "" then [] else tokens false line.toList

/-! ### Lines of fields -/

/-- A field of a line. Without quotes around it, it has no quote and no comma. -/
structure Field where
  text : String
  quoted : Bool
  plain : quoted = false → ',' ∉ text.toList ∧ '"' ∉ text.toList

/-- A quote inside quotes is written twice. -/
def escape (text : List Char) : List Char :=
  text.flatMap fun c => if c = '"' then ['"', '"'] else [c]

def Field.written (field : Field) : List Char :=
  if field.quoted then '"' :: (escape field.text.toList ++ ['"']) else field.text.toList

def Field.render (field : Field) : String := String.ofList field.written

/-- The line of some fields. -/
def lineOf (fields : List Field) : String := join (fields.map Field.render) ","

/-- A field with quotes around it. -/
def inQuotes (text : String) : Field := ⟨text, true, fun h => absurd h Bool.noConfusion⟩

/-! ### Reading a field -/

theorem scan_plain {text : List Char} (hcomma : ',' ∉ text) (hquote : '"' ∉ text)
    (next tok : List Char) : scan false (text ++ next) tok = scan false next (tok ++ text) := by
  induction text generalizing tok with
  | nil => simp
  | cons c text ih =>
      rw [List.mem_cons, not_or] at hcomma hquote
      rw [List.cons_append, scan_other (Ne.symm hquote.1) (fun _ => Ne.symm hcomma.1),
        ih hcomma.2 hquote.2, List.append_assoc, List.singleton_append]

/-- The closing quote is not followed by another one. -/
theorem scan_escape (text : List Char) {next : List Char} (hnext : next.head? ≠ some '"')
    (tok : List Char) :
    scan true (escape text ++ '"' :: next) tok = scan false next (tok ++ text) := by
  induction text generalizing tok with
  | nil =>
      rw [escape, List.flatMap_nil, List.nil_append, List.append_nil]
      exact scan_close hnext tok
  | cons c text ih =>
      rw [escape, List.flatMap_cons, List.append_assoc]
      by_cases hquote : c = '"'
      · rw [if_pos hquote, List.cons_append, List.singleton_append, scan_double]
        refine (ih _).trans ?_
        rw [List.append_assoc, hquote, List.singleton_append]
      · rw [if_neg hquote, List.singleton_append,
          scan_other hquote fun h => absurd h Bool.noConfusion]
        refine (ih _).trans ?_
        rw [List.append_assoc, List.singleton_append]

theorem scan_written (field : Field) {next : List Char} (hnext : next.head? ≠ some '"') :
    scan false (field.written ++ next) [] = scan false next field.text.toList := by
  rw [Field.written]
  split
  · rw [List.cons_append, scan_open, List.append_assoc, List.singleton_append,
      scan_escape _ hnext, List.nil_append]
  · next hquoted =>
      obtain ⟨hcomma, hquote⟩ := field.plain (Bool.eq_false_iff.mpr hquoted)
      rw [scan_plain hcomma hquote, List.nil_append]

/-! ### Reading a line -/

/-- The characters of a line, field by field. -/
def chars : List Field → List Char
  | [] => []
  | [field] => field.written
  | field :: fields => field.written ++ ',' :: chars fields

theorem toList_lineOf (fields : List Field) : (lineOf fields).toList = chars fields := by
  rw [lineOf, join, String.toList_intercalate]
  induction fields with
  | nil => rfl
  | cons field fields ih =>
      cases fields with
      | nil => simp [chars, Field.render]
      | cons field' fields =>
          have hchars : chars (field :: field' :: fields) =
              field.written ++ ',' :: chars (field' :: fields) := rfl
          rw [List.map_cons, List.map_cons, List.map_cons, List.map_cons,
            List.intercalate_cons_cons, hchars, ← ih]
          simp [Field.render]

/-- Without characters only a comma before them makes a token. -/
theorem tokens_nil (last_ : Bool) : tokens last_ [] = if last_ then [""] else [] := by
  have hend : tokens false [] = [] := tokens_of_none rfl
  cases last_ with
  | false => exact hend
  | true =>
      have htoken : RsyslogCsvSeparator true [] = some ⟨[], [], false⟩ := rfl
      rw [tokens_of_some htoken, hend]
      rfl

theorem tokens_of_ne_nil {next : List Char} (h : next ≠ []) (last_ : Bool) :
    tokens last_ next =
      String.ofList (scan false next []).tok ::
        tokens (scan false next []).last_ (scan false next []).next := by
  have htoken : RsyslogCsvSeparator last_ next = some (scan false next []) := if_neg h
  exact tokens_of_some htoken

/-- The characters of the fields give their texts, the last of which may be empty after a comma. -/
theorem tokens_chars (field : Field) (fields : List Field) (last_ : Bool)
    (h : last_ = true ∨ chars (field :: fields) ≠ []) :
    tokens last_ (chars (field :: fields)) = (field :: fields).map Field.text := by
  induction fields generalizing field last_ with
  | nil =>
      have hscan : scan false field.written [] = ⟨field.text.toList, [], false⟩ := by
        have hwritten := @scan_written field [] (by simp)
        rw [List.append_nil] at hwritten
        rw [hwritten, scan]
      rw [chars] at h ⊢
      by_cases hnil : field.written = []
      · have hlast : last_ = true := h.resolve_right (not_not.mpr hnil)
        rw [hnil] at hscan ⊢
        have htext : field.text.toList = [] := (congrArg Token.tok hscan).symm
        rw [tokens_nil, hlast, if_pos rfl, List.map_singleton, String.toList_eq_nil_iff.mp htext]
      · rw [tokens_of_ne_nil hnil, hscan, tokens_nil, String.ofList_toList]
        rfl
  | cons field' fields ih =>
      have hchars : chars (field :: field' :: fields) =
          field.written ++ ',' :: chars (field' :: fields) := rfl
      have hne : chars (field :: field' :: fields) ≠ [] := by
        rw [hchars]
        exact List.append_ne_nil_of_right_ne_nil _ (List.cons_ne_nil _ _)
      rw [tokens_of_ne_nil hne, hchars, scan_written field (by simp), scan_comma,
        ih field' true (Or.inl rfl), String.ofList_toList]
      rfl

/-- A line that is not empty is read back as the texts of its fields. -/
theorem tokenize_lineOf {fields : List Field} (h : lineOf fields ≠ "") :
    tokenize (lineOf fields) = fields.map Field.text := by
  have hchars : chars fields ≠ [] := by
    rw [← toList_lineOf]
    exact fun hnil => h (String.toList_eq_nil_iff.mp hnil)
  rw [tokenize, if_neg h, toList_lineOf]
  cases fields with
  | nil => exact absurd rfl hchars
  | cons field fields => exact tokens_chars field fields false (Or.inr hchars)

theorem lineOf_inQuotes_ne {texts : List String} (h : texts ≠ []) :
    lineOf (texts.map inQuotes) ≠ "" := by
  obtain ⟨text, rest, rfl⟩ := List.exists_cons_of_ne_nil h
  intro hempty
  have hchars := congrArg String.toList hempty
  rw [toList_lineOf] at hchars
  cases rest <;> simp [chars, Field.written, inQuotes] at hchars

/-- Tokenizing inverts the quoting: of lines in which all fields stand in quotes, and of those in
which some that need no quotes have none. -/
theorem tokenize_inverts_quoting :
    (∀ texts : List String, texts ≠ [] → tokenize (lineOf (texts.map inQuotes)) = texts) ∧
    ∀ fields : List Field, lineOf fields ≠ "" →
      tokenize (lineOf fields) = fields.map Field.text := by
  refine ⟨fun texts hne => ?_, fun fields h => tokenize_lineOf h⟩
  rw [tokenize_lineOf (lineOf_inQuotes_ne hne), List.map_map]
  exact List.map_id texts

/-- An empty field at the beginning and at the end, and a quote and a comma in between. -/
def threeFields : List Field :=
  [⟨"", false, fun _ => by decide⟩, inQuotes "a \"b\", c", ⟨"", false, fun _ => by decide⟩]

theorem tokenize_threeFields :
    tokenize (lineOf (["", "a \"b\", c"].map inQuotes)) = ["", "a \"b\", c"] ∧
    tokenize (lineOf threeFields) = ["", "a \"b\", c", ""] :=
  ⟨tokenize_inverts_quoting.1 ["", "a \"b\", c"] (by decide),
    tokenize_inverts_quoting.2 threeFields (by decide +kernel)⟩

/-! ### Events -/

def kCsvFields : List String := ["time", "host", "severity", "facility", "tag", "message"]

/-- A field of an event; the time has a name of its own, and the tag loses a colon at its end. -/
def addField (key value : String) (fields : Row) : Row :=
  if key = "time" then fields.insert "datetime" value
  else if key = "tag" ∧ value.toList.getLast? = some ':' then
    fields.insertIfNew key (String.ofList value.toList.dropLast)
  else fields.insertIfNew key value

/-- The loop over the tokens, with the names that are left. -/
def populateFields : List String → List String → Row → Except String Row
  | [], [], fields => .ok fields
  | _ :: _, [], _ => .error "Received fewer fields than expected"
  | [], _ :: _, _ => .error "Received more fields than expected"
  | key :: keys, value :: values, fields =>
      populateFields keys values (addField key (trim value) fields)

def populateEventContext (line : String) (fields : Row) : Except String Row :=
  populateFields kCsvFields (tokenize line) fields

end Osquery.EventPublishers.SyslogCsv
