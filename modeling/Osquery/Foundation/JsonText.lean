import Osquery.Foundation.Numeral

/-!
# JSON documents and their text

A JSON library is a writer and a reader of documents, and what its users rely
on is that the reader accepts the writer's text and returns the document.
`JsonLibrary` states this contract; `reference` is a writer in the compact
form with the usual escapes, with a reader for the texts it produces.

## Implementation notes

The members of an object are a list in document order, and a name may occur
twice. A number is an integer or a mantissa with a decimal exponent. The
reference reader accepts no white space between tokens.
-/

namespace Osquery.Foundation.JsonText

open Numeral

/-- A JSON document. -/
inductive Json
  | null
  | bool (b : Bool)
  | int (n : ℤ)
  | real (mantissa exponent : ℤ)
  | str (s : String)
  | arr (items : List Json)
  | obj (members : List (String × Json))

/-- A writer and a reader of JSON text. The text has no NUL character, so it
survives being passed as a C string, and its brackets are those of the value. -/
structure JsonLibrary where
  write : Json → String
  parse : String → Option Json
  parse_write : ∀ v, parse (write v) = some v
  write_no_nul : ∀ v, '\x00' ∉ (write v).toList
  write_arr_head : ∀ items, (write (.arr items)).toList.head? = some '['
  write_obj_head : ∀ members, (write (.obj members)).toList.head? = some '\x7b'
  write_obj_last : ∀ members, (write (.obj members)).toList.getLast? = some '\x7d'

/-! ### Reference writer -/

/-- The upper-case hexadecimal digit of a value below sixteen. -/
def hexDigit (n : ℕ) : Char :=
  if n < 10 then Char.ofNat (48 + n) else Char.ofNat (55 + n)

/-- One character inside a JSON string. -/
def escape (c : Char) : List Char :=
  if c = '"' then ['\\', '"']
  else if c = '\\' then ['\\', '\\']
  else if c.toNat < 32 then
    ['\\', 'u', '0', '0', hexDigit (c.toNat / 16), hexDigit (c.toNat % 16)]
  else [c]

def writeString (s : String) : List Char := '"' :: s.toList.flatMap escape ++ ['"']

def writeInt : ℤ → List Char
  | .ofNat n => (toText n).toList
  | .negSucc n => '-' :: (toText (n + 1)).toList

mutual

/-- The compact text of a document. -/
def writeValue : Json → List Char
  | .null => ['n', 'u', 'l', 'l']
  | .bool true => ['t', 'r', 'u', 'e']
  | .bool false => ['f', 'a', 'l', 's', 'e']
  | .int n => writeInt n
  | .real m e => writeInt m ++ 'e' :: writeInt e
  | .str s => writeString s
  | .arr [] => ['[', ']']
  | .arr (v :: vs) => '[' :: (writeValue v ++ writeItems vs)
  | .obj [] => ['\x7b', '\x7d']
  | .obj ((k, v) :: ms) => '\x7b' :: (writeString k ++ ':' :: (writeValue v ++ writeMembers ms))

/-- The items after the first one, and the closing bracket. -/
def writeItems : List Json → List Char
  | [] => [']']
  | v :: vs => ',' :: (writeValue v ++ writeItems vs)

/-- The members after the first one, and the closing brace. -/
def writeMembers : List (String × Json) → List Char
  | [] => ['\x7d']
  | (k, v) :: ms => ',' :: (writeString k ++ ':' :: (writeValue v ++ writeMembers ms))

end

/-! ### Reference reader -/

def hexValue (c : Char) : Option ℕ :=
  if c.isDigit then some (c.toNat - 48)
  else if 65 ≤ c.toNat ∧ c.toNat ≤ 70 then some (c.toNat - 55)
  else none

/-- The characters up to the closing quote, and what follows it. -/
def parseString : List Char → Option (List Char × List Char)
  | '"' :: rest => some ([], rest)
  | '\\' :: '"' :: rest => (parseString rest).map fun r => ('"' :: r.1, r.2)
  | '\\' :: '\\' :: rest => (parseString rest).map fun r => ('\\' :: r.1, r.2)
  | '\\' :: 'u' :: '0' :: '0' :: a :: b :: rest =>
      match hexValue a, hexValue b with
      | some x, some y => (parseString rest).map fun r => (Char.ofNat (16 * x + y) :: r.1, r.2)
      | _, _ => none
  | '\\' :: _ => none
  | c :: rest => (parseString rest).map fun r => (c :: r.1, r.2)
  | [] => none

def parseDigits (cs : List Char) : Option (ℕ × List Char) :=
  let digits := cs.takeWhile Char.isDigit
  if digits = [] then none
  else some (Nat.ofDigitChars 10 digits 0, cs.dropWhile Char.isDigit)

def parseInt : List Char → Option (ℤ × List Char)
  | '-' :: rest => (parseDigits rest).map fun r => (-(r.1 : ℤ), r.2)
  | rest => (parseDigits rest).map fun r => ((r.1 : ℤ), r.2)

def parseNumber (cs : List Char) : Option (Json × List Char) :=
  match parseInt cs with
  | some (m, 'e' :: rest) => (parseInt rest).map fun r => (.real m r.1, r.2)
  | some (n, rest) => some (.int n, rest)
  | none => none

mutual

def parseValue : ℕ → List Char → Option (Json × List Char)
  | 0, _ => none
  | fuel + 1, cs =>
      match cs with
      | 'n' :: 'u' :: 'l' :: 'l' :: rest => some (.null, rest)
      | 't' :: 'r' :: 'u' :: 'e' :: rest => some (.bool true, rest)
      | 'f' :: 'a' :: 'l' :: 's' :: 'e' :: rest => some (.bool false, rest)
      | '"' :: rest => (parseString rest).map fun r => (.str (String.ofList r.1), r.2)
      | '[' :: ']' :: rest => some (.arr [], rest)
      | '[' :: rest => (parseItems fuel rest).map fun r => (.arr r.1, r.2)
      | '\x7b' :: '\x7d' :: rest => some (.obj [], rest)
      | '\x7b' :: rest => (parseMembers fuel rest).map fun r => (.obj r.1, r.2)
      | cs => parseNumber cs

def parseItems : ℕ → List Char → Option (List Json × List Char)
  | 0, _ => none
  | fuel + 1, cs =>
      match parseValue fuel cs with
      | some (v, ',' :: rest) => (parseItems fuel rest).map fun r => (v :: r.1, r.2)
      | some (v, ']' :: rest) => some ([v], rest)
      | _ => none

def parseMembers : ℕ → List Char → Option (List (String × Json) × List Char)
  | 0, _ => none
  | fuel + 1, cs =>
      match cs with
      | '"' :: rest =>
          match parseString rest with
          | some (k, ':' :: rest) =>
              match parseValue fuel rest with
              | some (v, ',' :: rest) =>
                  (parseMembers fuel rest).map fun r => ((String.ofList k, v) :: r.1, r.2)
              | some (v, '\x7d' :: rest) => some ([(String.ofList k, v)], rest)
              | _ => none
          | _ => none
      | _ => none

end

/-! ### The reader accepts the writer's text -/

private theorem hexValue_hexDigit {n : ℕ} (h : n < 16) : hexValue (hexDigit n) = some n := by
  have hall : ∀ n : Fin 16, hexValue (hexDigit n) = some n.val := by decide
  exact hall ⟨n, h⟩

private theorem parseString_escape (c : Char) (cs : List Char) :
    parseString (escape c ++ cs) = (parseString cs).map fun r => (c :: r.1, r.2) := by
  unfold escape
  split
  · rename_i h
    subst h
    rfl
  · rename_i hq
    split
    · rename_i h
      subst h
      rfl
    · rename_i hb
      split
      · rename_i h
        have hx : hexValue (hexDigit (c.toNat / 16)) = some (c.toNat / 16) :=
          hexValue_hexDigit (by omega)
        have hy : hexValue (hexDigit (c.toNat % 16)) = some (c.toNat % 16) :=
          hexValue_hexDigit (by omega)
        have hc : Char.ofNat (16 * (c.toNat / 16) + c.toNat % 16) = c := by
          rw [Nat.div_add_mod]
          exact Char.ofNat_toNat c
        simp only [List.cons_append, List.nil_append, parseString, hx, hy, hc]
      · simp only [List.singleton_append]
        rw [parseString]
        · exact hq
        all_goals simp_all

private theorem parseString_write (cs rest : List Char) :
    parseString (cs.flatMap escape ++ '"' :: rest) = some (cs, rest) := by
  induction cs with
  | nil => rfl
  | cons c cs ih =>
      rw [List.flatMap_cons, List.append_assoc, parseString_escape, ih]
      rfl

/-- What may follow a document without being read as part of it. -/
def Stops (rest : List Char) : Prop :=
  ∀ c, rest.head? = some c → c.isDigit = false ∧ c ≠ 'e'

private theorem parseDigits_toText (n : ℕ) {rest : List Char}
    (hr : ∀ c, rest.head? = some c → c.isDigit = false) :
    parseDigits ((toText n).toList ++ rest) = some (n, rest) := by
  have htake : ((toText n).toList ++ rest).takeWhile Char.isDigit = (toText n).toList := by
    rw [List.takeWhile_append_of_pos fun _ hc => isDigit_of_mem_toText hc]
    cases rest with
    | nil => simp
    | cons c cs => simp [hr c rfl]
  have hdrop : ((toText n).toList ++ rest).dropWhile Char.isDigit = rest := by
    rw [List.dropWhile_append_of_pos fun _ hc => isDigit_of_mem_toText hc]
    cases rest with
    | nil => rfl
    | cons c cs => simp [hr c rfl]
  simp only [parseDigits, htake, hdrop, toText_ne_nil, if_false]
  rw [toText_toList, Nat.ofDigitChars_ten_toDigits]

private theorem toText_cons (n : ℕ) : ∃ d ds, (toText n).toList = d :: ds ∧ d.isDigit = true := by
  obtain ⟨d, ds, h⟩ := List.exists_cons_of_ne_nil (toText_ne_nil n)
  exact ⟨d, ds, h, isDigit_of_mem_toText (h ▸ List.mem_cons_self)⟩

private theorem parseInt_write (n : ℤ) {rest : List Char}
    (hr : ∀ c, rest.head? = some c → c.isDigit = false) :
    parseInt (writeInt n ++ rest) = some (n, rest) := by
  cases n with
  | ofNat n =>
      obtain ⟨d, ds, hd, hdig⟩ := toText_cons n
      have h := parseDigits_toText n hr
      rw [writeInt, hd] at *
      rw [List.cons_append, parseInt]
      · rw [List.cons_append] at h
        rw [h]
        rfl
      · intro rest' heq
        cases heq
        simp [Char.isDigit] at hdig
  | negSucc n =>
      simp only [writeInt, List.cons_append, parseInt, parseDigits_toText (n + 1) hr]
      rfl

private theorem parseNumber_int (n : ℤ) {rest : List Char} (hr : Stops rest) :
    parseNumber (writeInt n ++ rest) = some (.int n, rest) := by
  rw [parseNumber, parseInt_write n fun c hc => (hr c hc).1]
  cases rest with
  | nil => rfl
  | cons c cs =>
      have hc := (hr c rfl).2
      split
      · rename_i heq
        cases heq
        exact absurd rfl hc
      · rename_i heq
        cases heq
        rfl
      · rename_i heq
        cases heq

private theorem parseNumber_real (m e : ℤ) {rest : List Char} (hr : Stops rest) :
    parseNumber (writeInt m ++ 'e' :: (writeInt e ++ rest)) = some (.real m e, rest) := by
  rw [parseNumber, parseInt_write m (by simp [Char.isDigit])]
  simp only [parseInt_write e fun c hc => (hr c hc).1]
  rfl

private theorem writeInt_cons (n : ℤ) :
    ∃ d ds, writeInt n = d :: ds ∧ (d = '-' ∨ d.isDigit = true) := by
  cases n with
  | ofNat n =>
      obtain ⟨d, ds, hd, hdig⟩ := toText_cons n
      exact ⟨d, ds, hd, Or.inr hdig⟩
  | negSucc n => exact ⟨'-', _, rfl, Or.inl rfl⟩

private theorem parseValue_number {fuel : ℕ} {d : Char} {ds : List Char}
    (hd : d = '-' ∨ d.isDigit = true) :
    parseValue (fuel + 1) (d :: ds) = parseNumber (d :: ds) := by
  rw [parseValue]
  all_goals
    intro rest heq
    cases heq
    simp [Char.isDigit] at hd

private theorem writeValue_cons (v : Json) :
    ∃ d ds, writeValue v = d :: ds ∧ d ≠ ']' ∧ d ≠ '\x7d' := by
  have hint : ∀ n : ℤ, ∃ d ds, writeInt n = d :: ds ∧ d ≠ ']' ∧ d ≠ '\x7d' := by
    intro n
    obtain ⟨d, ds, h, hd⟩ := writeInt_cons n
    refine ⟨d, ds, h, ?_, ?_⟩
    all_goals
      rintro rfl
      simp [Char.isDigit] at hd
  cases v with
  | null => exact ⟨_, _, rfl, by decide, by decide⟩
  | bool b => cases b <;> exact ⟨_, _, rfl, by decide, by decide⟩
  | int n => exact hint n
  | real m e =>
      obtain ⟨d, ds, h, hd⟩ := hint m
      exact ⟨d, _, by rw [writeValue, h]; rfl, hd⟩
  | str s => exact ⟨_, _, rfl, by decide, by decide⟩
  | arr vs => cases vs <;> exact ⟨_, _, rfl, by decide, by decide⟩
  | obj ms => cases ms <;> exact ⟨_, _, rfl, by decide, by decide⟩

private theorem writeItems_stops (vs : List Json) (rest : List Char) :
    Stops (writeItems vs ++ rest) := by
  cases vs <;> simp [writeItems, Stops, Char.isDigit]

private theorem writeMembers_stops (ms : List (String × Json)) (rest : List Char) :
    Stops (writeMembers ms ++ rest) := by
  cases ms <;> simp [writeMembers, Stops, Char.isDigit]

private theorem writeItems_length_pos (vs : List Json) : 0 < (writeItems vs).length := by
  cases vs <;> simp [writeItems]

private theorem writeMembers_length_pos (ms : List (String × Json)) :
    0 < (writeMembers ms).length := by
  cases ms <;> simp [writeMembers]

mutual

private theorem parseValue_write (v : Json) (fuel : ℕ) (rest : List Char)
    (hf : (writeValue v).length ≤ fuel) (hr : Stops rest) :
    parseValue fuel (writeValue v ++ rest) = some (v, rest) := by
  obtain ⟨fuel, rfl⟩ : ∃ m, fuel = m + 1 := by
    obtain ⟨d, ds, h, -⟩ := writeValue_cons v
    rw [h, List.length_cons] at hf
    exact ⟨fuel - 1, by omega⟩
  match v with
  | .null => rfl
  | .bool true => rfl
  | .bool false => rfl
  | .int n =>
      obtain ⟨d, ds, h, hd⟩ := writeInt_cons n
      have hn := parseNumber_int n hr
      rw [writeValue, h, List.cons_append] at *
      rw [parseValue_number hd, hn]
  | .real m e =>
      obtain ⟨d, ds, h, hd⟩ := writeInt_cons m
      have hn := parseNumber_real m e hr
      rw [writeValue, List.append_assoc, List.cons_append]
      rw [h, List.cons_append] at *
      rw [parseValue_number hd, hn]
  | .str s =>
      simp only [writeValue, writeString, List.cons_append, List.append_assoc, List.nil_append]
      rw [parseValue, parseString_write]
      simp
  | .arr [] => rfl
  | .arr (w :: ws) =>
      have hitems := parseItems_write (w :: ws) fuel rest (by simp) (by
        simp only [writeValue, writeItems, List.length_cons, List.tail_cons] at hf ⊢
        omega)
      obtain ⟨d, ds, h, hd, -⟩ := writeValue_cons w
      simp only [writeValue, writeItems, List.tail_cons, h, List.cons_append] at hitems ⊢
      rw [parseValue, hitems]
      · rfl
      · intro rest' heq
        cases heq
        exact absurd rfl hd
  | .obj [] => rfl
  | .obj ((k, w) :: ms) =>
      have hmembers := parseMembers_write ((k, w) :: ms) fuel rest (by simp) (by
        simp only [writeValue, writeMembers, List.length_cons, List.tail_cons] at hf ⊢
        omega)
      simp only [writeValue, writeMembers, List.tail_cons, writeString, List.cons_append]
        at hmembers ⊢
      rw [parseValue, hmembers]
      · rfl
      · intro rest' heq
        cases heq

private theorem parseItems_write (vs : List Json) (fuel : ℕ) (rest : List Char) (hne : vs ≠ [])
    (hf : (writeItems vs).tail.length ≤ fuel) :
    parseItems fuel ((writeItems vs).tail ++ rest) = some (vs, rest) := by
  match vs with
  | [] => exact absurd rfl hne
  | v :: vs =>
      simp only [writeItems, List.tail_cons, List.length_append, List.append_assoc] at hf ⊢
      have hpos := writeItems_length_pos vs
      obtain ⟨fuel, rfl⟩ : ∃ m, fuel = m + 1 := ⟨fuel - 1, by omega⟩
      have hv := parseValue_write v fuel (writeItems vs ++ rest) (by omega)
        (writeItems_stops vs rest)
      rw [parseItems, hv]
      match vs with
      | [] => rfl
      | w :: ws =>
          have hrest := parseItems_write (w :: ws) fuel rest (by simp) (by
            simp only [writeItems, List.length_cons, List.tail_cons] at hf ⊢
            omega)
          simp only [writeItems, List.tail_cons, List.cons_append] at hrest ⊢
          rw [hrest]
          rfl

private theorem parseMembers_write (ms : List (String × Json)) (fuel : ℕ) (rest : List Char)
    (hne : ms ≠ []) (hf : (writeMembers ms).tail.length ≤ fuel) :
    parseMembers fuel ((writeMembers ms).tail ++ rest) = some (ms, rest) := by
  match ms with
  | [] => exact absurd rfl hne
  | (k, v) :: ms =>
      simp only [writeMembers, List.tail_cons, List.length_append, List.append_assoc,
        List.cons_append, List.length_cons] at hf ⊢
      have hpos := writeMembers_length_pos ms
      obtain ⟨fuel, rfl⟩ : ∃ m, fuel = m + 1 := ⟨fuel - 1, by omega⟩
      have hv := parseValue_write v fuel (writeMembers ms ++ rest) (by omega)
        (writeMembers_stops ms rest)
      simp only [writeString, List.cons_append, List.append_assoc, List.nil_append]
      rw [parseMembers]
      simp only [parseString_write, hv]
      match ms with
      | [] => simp [writeMembers]
      | (l, w) :: ms =>
          have hrest := parseMembers_write ((l, w) :: ms) fuel rest (by simp) (by
            simp only [writeMembers, List.length_append, List.length_cons, List.tail_cons]
              at hf ⊢
            omega)
          simp only [writeMembers, List.tail_cons, List.cons_append] at hrest ⊢
          rw [hrest]
          simp

end

/-! ### The text has no NUL character -/

private theorem hexDigit_ne_nul {n : ℕ} (h : n < 16) : hexDigit n ≠ '\x00' := by
  have hall : ∀ n : Fin 16, hexDigit n ≠ '\x00' := by decide
  exact hall ⟨n, h⟩

private theorem nul_not_mem_escape (c : Char) : '\x00' ∉ escape c := by
  unfold escape
  split
  · simp
  · split
    · simp
    · split
      · have h₁ := hexDigit_ne_nul (n := c.toNat / 16) (by omega)
        have h₂ := hexDigit_ne_nul (n := c.toNat % 16) (by omega)
        simp [h₁.symm, h₂.symm]
      · rename_i h
        rw [List.mem_singleton]
        rintro rfl
        exact h (by decide)

private theorem nul_not_mem_writeString (s : String) : '\x00' ∉ writeString s := by
  simp [writeString, nul_not_mem_escape]

private theorem nul_not_mem_toText (n : ℕ) : '\x00' ∉ (toText n).toList := by
  intro h
  exact absurd (isDigit_of_mem_toText h) (by decide)

private theorem nul_not_mem_writeInt (n : ℤ) : '\x00' ∉ writeInt n := by
  cases n with
  | ofNat n => exact nul_not_mem_toText n
  | negSucc n => simp [writeInt, nul_not_mem_toText]

mutual

private theorem nul_not_mem_writeValue (v : Json) : '\x00' ∉ writeValue v := by
  match v with
  | .null => decide
  | .bool true => decide
  | .bool false => decide
  | .int n => exact nul_not_mem_writeInt n
  | .real m e => simp [writeValue, nul_not_mem_writeInt]
  | .str s => exact nul_not_mem_writeString s
  | .arr [] => decide
  | .arr (w :: ws) =>
      simp [writeValue, nul_not_mem_writeValue w, nul_not_mem_writeItems ws]
  | .obj [] => decide
  | .obj ((k, w) :: ms) =>
      simp [writeValue, nul_not_mem_writeString, nul_not_mem_writeValue w,
        nul_not_mem_writeMembers ms]

private theorem nul_not_mem_writeItems (vs : List Json) : '\x00' ∉ writeItems vs := by
  match vs with
  | [] => decide
  | w :: ws => simp [writeItems, nul_not_mem_writeValue w, nul_not_mem_writeItems ws]

private theorem nul_not_mem_writeMembers (ms : List (String × Json)) :
    '\x00' ∉ writeMembers ms := by
  match ms with
  | [] => decide
  | (k, w) :: ms =>
      simp [writeMembers, nul_not_mem_writeString, nul_not_mem_writeValue w,
        nul_not_mem_writeMembers ms]

end

private theorem writeMembers_getLast (ms : List (String × Json)) :
    (writeMembers ms).getLast? = some '\x7d' := by
  match ms with
  | [] => rfl
  | (k, w) :: ms =>
      have ih := writeMembers_getLast ms
      simp [writeMembers, List.getLast?_cons, List.getLast?_append, ih]

/-- Read a whole text as one document. -/
def parseText (s : String) : Option Json :=
  match parseValue s.toList.length s.toList with
  | some (v, []) => some v
  | _ => none

/-- The reference writer and reader satisfy the contract of a JSON library. -/
def reference : JsonLibrary where
  write v := String.ofList (writeValue v)
  parse := parseText
  parse_write := by
    intro v
    have h := parseValue_write v (writeValue v).length [] le_rfl (by simp [Stops])
    rw [List.append_nil] at h
    simp only [parseText, String.toList_ofList, h]
  write_no_nul := by
    intro v
    simpa using nul_not_mem_writeValue v
  write_arr_head := by
    intro items
    cases items <;> simp [writeValue]
  write_obj_head := by
    intro members
    cases members <;> simp [writeValue]
  write_obj_last := by
    intro members
    match members with
    | [] => rfl
    | (k, w) :: ms =>
        simp [writeValue, List.getLast?_cons, List.getLast?_append, writeMembers_getLast ms]

end Osquery.Foundation.JsonText
