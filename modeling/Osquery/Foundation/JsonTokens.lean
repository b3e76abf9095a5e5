import Osquery.Foundation.JsonText
import Osquery.Foundation.Separated

/-!
# Reading JSON text

A text is cut into tokens, one character at a time, and a machine with a stack of open arrays and
objects puts the tokens together. A line break ends every token and is part of none, so the
tokens of a text are those of its lines; and white space around a line changes none of them.

## Implementation notes

The grammar is the one of the standard: control characters do not stand in strings, and a high
surrogate is followed by the escape of a low one. A low surrogate by itself is no character and
is rejected. A word is a longest sequence of the characters of numbers and literal names, of
which the grammar never has two side by side.
-/

namespace Osquery.Foundation.JsonTokens

open Numeral JsonText Separated

/-! ### Tokens -/

inductive Token
  | beginArray
  | endArray
  | beginObject
  | endObject
  | nameSeparator
  | valueSeparator
  | string (s : String)
  | word (w : List Char)
  deriving DecidableEq

/-- What the characters so far are the beginning of. A string has the characters before, an escape
also the high surrogate that it has to complete. -/
inductive Mode
  | between
  | word (w : List Char)
  | string (s : List Char)
  | escape (s : List Char) (high : Option ℕ)
  | hex (s : List Char) (high : Option ℕ) (digits : List ℕ)
  | surrogate (s : List Char) (high : ℕ)

def isWhite (c : Char) : Bool := c = ' ' || c = '\t' || c = '\n' || c = '\r'

def isWordChar (c : Char) : Bool := c.isAlphanum || c = '+' || c = '-' || c = '.'

def structural (c : Char) : Option Token :=
  if c = '[' then some .beginArray
  else if c = ']' then some .endArray
  else if c = '\x7b' then some .beginObject
  else if c = '\x7d' then some .endObject
  else if c = ':' then some .nameSeparator
  else if c = ',' then some .valueSeparator
  else none

/-- The character that an escape of one letter stands for. -/
def escaped (c : Char) : Option Char :=
  if c = '"' ∨ c = '\\' ∨ c = '/' then some c
  else if c = 'b' then some '\x08'
  else if c = 'f' then some '\x0c'
  else if c = 'n' then some '\n'
  else if c = 'r' then some '\r'
  else if c = 't' then some '\t'
  else none

def hexDigitValue (c : Char) : Option ℕ :=
  if c.isDigit then some (c.toNat - 48)
  else if 'A' ≤ c ∧ c ≤ 'F' then some (c.toNat - 55)
  else if 'a' ≤ c ∧ c ≤ 'f' then some (c.toNat - 87)
  else none

/-- A code unit by itself is a character or a high surrogate; after a high surrogate, a low one
completes a character. -/
def codeUnit (s : List Char) (high : Option ℕ) (code : ℕ) : Option Mode :=
  match high with
  | none =>
      if 0xD800 ≤ code ∧ code ≤ 0xDBFF then some (.surrogate s code)
      else if 0xDC00 ≤ code ∧ code ≤ 0xDFFF then none
      else some (.string (s ++ [Char.ofNat code]))
  | some high =>
      if 0xDC00 ≤ code ∧ code ≤ 0xDFFF then
        some (.string (s ++ [Char.ofNat (0x10000 + (high - 0xD800) * 0x400 + (code - 0xDC00))]))
      else none

/-- The first character after a token. -/
def startToken (c : Char) : Option (Mode × List Token) :=
  if isWhite c then some (.between, [])
  else if c = '"' then some (.string [], [])
  else if isWordChar c then some (.word [c], [])
  else (structural c).map fun t => (.between, [t])

/-- One more character, with the tokens that it completes. -/
def stepMode : Mode → Char → Option (Mode × List Token)
  | .between, c => startToken c
  | .word w, c =>
      if isWordChar c then some (.word (w ++ [c]), [])
      else (startToken c).map fun next => (next.1, .word w :: next.2)
  | .string s, c =>
      if c = '"' then some (.between, [.string (String.ofList s)])
      else if c = '\\' then some (.escape s none, [])
      else if c.toNat < 32 then none
      else some (.string (s ++ [c]), [])
  | .escape s high, c =>
      if c = 'u' then some (.hex s high [], [])
      else if high.isSome then none
      else (escaped c).map fun d => (.string (s ++ [d]), [])
  | .hex s high digits, c => do
      let digits := digits ++ [← hexDigitValue c]
      if digits.length < 4 then return (.hex s high digits, [])
      return (← codeUnit s high (digits.foldl (fun code d => 16 * code + d) 0), [])
  | .surrogate s high, c => if c = '\\' then some (.escape s (some high), []) else none

/-- The token that the end of a text completes. -/
def finish : Mode → Option (List Token)
  | .between => some []
  | .word w => some [.word w]
  | _ => none

def tokensFrom : Mode → List Char → Option (List Token)
  | mode, [] => finish mode
  | mode, c :: rest => do
      let next ← stepMode mode c
      return next.2 ++ (← tokensFrom next.1 rest)

/-- The tokens of a text, or of a line of it. -/
def tokens (text : List Char) : Option (List Token) := tokensFrom .between text

/-! ### Documents -/

/-- A number: an integer without leading zeros, a fraction and an exponent. -/
def number (w : List Char) : Option Json :=
  let negative := w.head? = some '-'
  let unsigned := if negative then w.drop 1 else w
  let whole := unsigned.takeWhile Char.isDigit
  let afterWhole := unsigned.dropWhile Char.isDigit
  let hasFraction := afterWhole.head? = some '.'
  let fraction := if hasFraction then (afterWhole.drop 1).takeWhile Char.isDigit else []
  let afterFraction :=
    if hasFraction then (afterWhole.drop 1).dropWhile Char.isDigit else afterWhole
  let mantissa : ℤ := Nat.ofDigitChars 10 (whole ++ fraction) 0
  let signed := if negative then -mantissa else mantissa
  if whole = [] ∨ (whole.head? = some '0' ∧ whole.length > 1) ∨ (hasFraction ∧ fraction = []) then
    none
  else
    match afterFraction with
    | [] => some (if hasFraction then .real signed (-(fraction.length : ℤ)) else .int signed)
    | e :: exponent =>
        let sign := splitSign exponent
        if (e = 'e' ∨ e = 'E') ∧ sign.2 ≠ [] ∧ sign.2.all Char.isDigit then
          let power : ℤ := Nat.ofDigitChars 10 sign.2 0
          some (.real signed ((if sign.1 then -power else power) - fraction.length))
        else none

def scalar (w : List Char) : Option Json :=
  if w = "null".toList then some .null
  else if w = "true".toList then some (.bool true)
  else if w = "false".toList then some (.bool false)
  else number w

/-- An array or an object that is still open: its items, its members, or its members and the name
of the one being read. -/
inductive Frame
  | items (done : List Json)
  | members (done : List (String × Json))
  | member (done : List (String × Json)) (name : String)

/-- What has to follow. -/
inductive Expect
  | value
  | itemOrEnd
  | name
  | nameOrEnd
  | separator (name : String)
  | after (v : Json)

/-- A value begins; `none` if the token begins no value. -/
def beginValue (stack : List Frame) : Token → Option (Expect × List Frame)
  | .beginArray => some (.itemOrEnd, .items [] :: stack)
  | .beginObject => some (.nameOrEnd, .members [] :: stack)
  | .string s => some (.after (.str s), stack)
  | .word w => (scalar w).map fun v => (.after v, stack)
  | _ => none

/-- What follows a value in the innermost open array or object. -/
def afterValue (v : Json) : List Frame → Token → Option (Expect × List Frame)
  | .items done :: stack, .valueSeparator => some (.value, .items (done ++ [v]) :: stack)
  | .items done :: stack, .endArray => some (.after (.arr (done ++ [v])), stack)
  | .member done name :: stack, .valueSeparator =>
      some (.name, .members (done ++ [(name, v)]) :: stack)
  | .member done name :: stack, .endObject => some (.after (.obj (done ++ [(name, v)])), stack)
  | _, _ => none

def stepToken : Expect × List Frame → Token → Option (Expect × List Frame)
  | (.value, stack), t => beginValue stack t
  | (.itemOrEnd, .items [] :: stack), .endArray => some (.after (.arr []), stack)
  | (.itemOrEnd, stack), t => beginValue stack t
  | (.name, stack), .string s => some (.separator s, stack)
  | (.nameOrEnd, stack), .string s => some (.separator s, stack)
  | (.nameOrEnd, .members [] :: stack), .endObject => some (.after (.obj []), stack)
  | (.separator name, .members done :: stack), .nameSeparator =>
      some (.value, .member done name :: stack)
  | (.after v, stack), t => afterValue v stack t
  | _, _ => none

/-- The document that some tokens make up. -/
def document (ts : List Token) : Option Json := do
  match ← ts.foldlM stepToken (.value, []) with
  | (.after v, []) => return v
  | _ => none

/-- The document of a text. -/
def readText (text : String) : Option Json := do document (← tokens text.toList)

/-! ### Lines -/

theorem tokensFrom_cons (mode : Mode) (c : Char) (rest : List Char) :
    tokensFrom mode (c :: rest) =
      (stepMode mode c).bind fun next => (tokensFrom next.1 rest).map (next.2 ++ ·) := by
  rw [tokensFrom]
  cases stepMode mode c with
  | none => rfl
  | some next =>
      change (tokensFrom next.1 rest).bind (fun ts => some (next.2 ++ ts)) =
        (tokensFrom next.1 rest).map (next.2 ++ ·)
      cases tokensFrom next.1 rest <;> rfl

/-- A line break ends what ends a text. -/
theorem stepMode_newline (mode : Mode) :
    stepMode mode '\n' = (finish mode).map (Prod.mk .between) := by
  cases mode with
  | escape s high => cases high <;> rfl
  | _ => rfl

/-- The tokens of a text are those of its first line and those of the rest. -/
theorem tokensFrom_append_newline (mode : Mode) (line rest : List Char) :
    tokensFrom mode (line ++ '\n' :: rest) =
      (tokensFrom mode line).bind fun ts => (tokens rest).map (ts ++ ·) := by
  induction line generalizing mode with
  | nil =>
      rw [List.nil_append, tokensFrom_cons, stepMode_newline]
      have hnil : tokensFrom mode [] = finish mode := rfl
      rw [hnil]
      cases finish mode <;> rfl
  | cons c line ih =>
      rw [List.cons_append, tokensFrom_cons, tokensFrom_cons]
      cases stepMode mode c with
      | none => rfl
      | some next =>
          rw [Option.bind_some, Option.bind_some, ih]
          cases tokensFrom next.1 line with
          | none => rfl
          | some ts =>
              cases tokens rest with
              | none => rfl
              | some ts' => simp

theorem eq_of_isSpace {c : Char} (h : isSpace c = true) :
    c = ' ' ∨ c = '\t' ∨ c = '\n' ∨ c = '\x0b' ∨ c = '\x0c' ∨ c = '\r' := by
  rw [isSpace, Bool.or_eq_true, Bool.and_eq_true, beq_iff_eq, decide_eq_true_eq,
    decide_eq_true_eq] at h
  rcases h with h | ⟨hlow, hhigh⟩
  · exact Or.inl h
  · have hcode : c.toNat = 9 ∨ c.toNat = 10 ∨ c.toNat = 11 ∨ c.toNat = 12 ∨ c.toNat = 13 := by omega
    rw [← Char.ofNat_toNat c]
    rcases hcode with h | h | h | h | h <;> rw [h] <;> decide

/-- White space before a token is passed over, if it may stand there. -/
theorem tokens_of_cons_space {c : Char} (hc : isSpace c = true) {line : List Char}
    {ts : List Token} (h : tokens (c :: line) = some ts) : tokens line = some ts := by
  rw [tokens, tokensFrom_cons, Option.bind_eq_some_iff] at h
  obtain ⟨next, hnext, hrest⟩ := h
  have hstart : next = (.between, []) := by
    rcases eq_of_isSpace hc with rfl | rfl | rfl | rfl | rfl | rfl <;> cases hnext <;> rfl
  subst hstart
  rw [tokens]
  simpa using hrest

/-- White space at the end of a text completes what the end of the text completes. -/
theorem finish_of_space {c : Char} (hc : isSpace c = true) {mode : Mode} {ts : List Token}
    (h : tokensFrom mode [c] = some ts) : finish mode = some ts := by
  rw [tokensFrom_cons] at h
  cases mode with
  | between => rcases eq_of_isSpace hc with rfl | rfl | rfl | rfl | rfl | rfl <;> cases h <;> rfl
  | word w => rcases eq_of_isSpace hc with rfl | rfl | rfl | rfl | rfl | rfl <;> cases h <;> rfl
  | string s => rcases eq_of_isSpace hc with rfl | rfl | rfl | rfl | rfl | rfl <;> cases h
  | escape s high =>
      cases high <;> rcases eq_of_isSpace hc with rfl | rfl | rfl | rfl | rfl | rfl <;> cases h
  | hex s high digits =>
      rcases eq_of_isSpace hc with rfl | rfl | rfl | rfl | rfl | rfl <;> cases h
  | surrogate s high =>
      rcases eq_of_isSpace hc with rfl | rfl | rfl | rfl | rfl | rfl <;> cases h

theorem tokensFrom_of_concat_space {c : Char} (hc : isSpace c = true) {mode : Mode}
    {line : List Char} {ts : List Token} (h : tokensFrom mode (line ++ [c]) = some ts) :
    tokensFrom mode line = some ts := by
  induction line generalizing mode ts with
  | nil => exact finish_of_space hc h
  | cons d line ih =>
      rw [List.cons_append, tokensFrom_cons, Option.bind_eq_some_iff] at h
      obtain ⟨next, hnext, hrest⟩ := h
      obtain ⟨ts', hts', rfl⟩ := Option.map_eq_some_iff.mp hrest
      rw [tokensFrom_cons, hnext, Option.bind_some, ih hts', Option.map_some]

theorem tokens_dropWhile {line : List Char} {ts : List Token} (h : tokens line = some ts) :
    tokens (line.dropWhile isSpace) = some ts := by
  induction line with
  | nil => exact h
  | cons c line ih =>
      by_cases hc : isSpace c = true
      · rw [List.dropWhile_cons_of_pos hc]
        exact ih (tokens_of_cons_space hc h)
      · rwa [List.dropWhile_cons_of_neg hc]

theorem tokens_rdropWhile {line : List Char} {ts : List Token} (h : tokens line = some ts) :
    tokens (line.rdropWhile isSpace) = some ts := by
  induction line using List.reverseRecOn with
  | nil => exact h
  | append_singleton line c ih =>
      by_cases hc : isSpace c = true
      · rw [List.rdropWhile_concat_pos _ _ _ hc]
        exact ih (tokensFrom_of_concat_space hc h)
      · rwa [List.rdropWhile_concat_neg _ _ _ hc]

/-- Trimming a line keeps its tokens. -/
theorem tokens_trim {line : String} {ts : List Token} (h : tokens line.toList = some ts) :
    tokens (trim line).toList = some ts := by
  have htrim : (trim line).toList = (line.toList.dropWhile isSpace).rdropWhile isSpace :=
    String.toList_ofList
  rw [htrim]
  exact tokens_rdropWhile (tokens_dropWhile h)

/-- No token begins with the beginning of a comment. -/
theorem tokens_comment (c : Char) (rest : List Char) (hc : c = '#' ∨ c = '/') :
    tokens (c :: rest) = none := by
  rw [tokens, tokensFrom_cons]
  rcases hc with rfl | rfl <;> rfl

/-- No text ends in a backslash. -/
theorem tokensFrom_concat_backslash (mode : Mode) (line : List Char) :
    tokensFrom mode (line ++ ['\\']) = none := by
  induction line generalizing mode with
  | nil =>
      rw [List.nil_append, tokensFrom_cons]
      cases mode with
      | escape s high => cases high <;> rfl
      | _ => rfl
  | cons c line ih =>
      rw [List.cons_append, tokensFrom_cons]
      cases stepMode mode c with
      | none => rfl
      | some next => rw [Option.bind_some, ih, Option.map_none]

/-- The tokens of some lines. -/
def linesTokens : List String → Option (List Token)
  | [] => some []
  | line :: lines => (tokens line.toList).bind fun ts => (linesTokens lines).map (ts ++ ·)

theorem linesTokens_cons_eq_some {line : String} {lines : List String} {ts : List Token} :
    linesTokens (line :: lines) = some ts ↔
      ∃ own rest, tokens line.toList = some own ∧ linesTokens lines = some rest ∧
        own ++ rest = ts := by
  rw [linesTokens, Option.bind_eq_some_iff]
  simp only [Option.map_eq_some_iff]
  exact ⟨fun ⟨own, hown, rest, hrest, heq⟩ => ⟨own, rest, hown, hrest, heq⟩,
    fun ⟨own, rest, hown, hrest, heq⟩ => ⟨own, hown, rest, hrest, heq⟩⟩

/-- The tokens of a text are those of its lines. -/
theorem tokens_join (line : String) (lines : List String) :
    tokens (join (line :: lines) "\n").toList = linesTokens (line :: lines) := by
  have hnewline : ("\n" : String).toList = ['\n'] := by decide
  induction lines generalizing line with
  | nil =>
      have hjoin : join [line] "\n" = line := by simp [join]
      rw [hjoin, linesTokens, linesTokens]
      cases tokens line.toList <;> simp
  | cons next lines ih =>
      rw [toList_join_cons_cons, hnewline, List.singleton_append, tokens,
        tokensFrom_append_newline, ih]
      rfl

/-- Every line may be followed by a line break. -/
theorem tokens_flatMap_line (lines : List String) :
    tokens (lines.flatMap fun line => line.toList ++ ['\n']) = linesTokens lines := by
  induction lines with
  | nil => rfl
  | cons line lines ih =>
      rw [List.flatMap_cons, List.append_assoc, List.singleton_append, tokens,
        tokensFrom_append_newline, ih]
      rfl

end Osquery.Foundation.JsonTokens
