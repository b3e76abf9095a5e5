import Osquery.Core.Rows
import Osquery.Database.Plugin

/-!
# The SQLite plugin

The plugin keeps one table per domain. Writes are prepared statements whose
parameters are bound as C strings. Reads are query texts into which the key or
the prefix is pasted between quotes, and a prefix is searched with `LIKE`, whose
wildcards and case folding the plugin does not undo.

## Implementation notes

SQLite itself is a parameter: `SqliteEngine` states what it documents about the
texts of this plugin. A text with a literal that has no quote is understood as
written, within the limits of the library; about other texts nothing is known.
The read-only mode and the occasional vacuum are left out.
-/

namespace Osquery.Database

open Foundation.Numeral Foundation.Separated Core.BackingStore Core.Rows

/-- `LIKE` on ASCII: any text for a percent sign, any character for an underscore,
and letters of either case. -/
def like : List Char → List Char → Bool
  | [], text => text.isEmpty
  | c :: pattern, text =>
      if c = '%' then text.tails.any (like pattern)
      else
        match text with
        | [] => false
        | x :: text => (c = '_' || c.toLower == x.toLower) && like pattern text

/-! ### The texts of the plugin -/

def selectValue (domain key : String) : String :=
  "select value from " ++ (domain ++ (" where key = '" ++ (key ++ "';")))

def selectKeys (domain pre : String) (max : UInt64) : String :=
  "select key from " ++ (domain ++ (" where key LIKE '" ++ (pre ++ "%" ++ ("'" ++
    if max > 0 then " limit " ++ toText max.toNat else ""))))

/-- The placeholders of the rows from one on. -/
def placeholders (i : ℕ) : ℕ → String
  | 0 => ""
  | n + 1 =>
      "(?" ++ toText (i * 2 - 1) ++ ", ?" ++ toText (i * 2) ++ ")" ++
        (if n = 0 then ";" else ", ") ++ placeholders (i + 1) n

def insertRows (domain : String) (rows : ℕ) : String :=
  "insert or replace into " ++ (domain ++ (" values " ++ placeholders 1 rows))

def deleteKey (domain : String) : String := "delete from " ++ (domain ++ " where key IN (?1);")

def deleteKeys (domain : String) : String :=
  "delete from " ++ (domain ++ " where key >= ?1 and key <= ?2;")

/-- A text that stands for itself between quotes and ends where it seems to. -/
def Literal (s : String) : Prop := '\x27' ∉ s.toList ∧ '\x00' ∉ s.toList

/-- The parameters of an insertion in the order of their numbers. -/
def parameters (data : List (String × String)) : List String := data.flatMap fun p => [p.1, p.2]

/-- One row with one column. -/
def column (name value : String) : Row := (∅ : Row).insert name value

/-! ### The library -/

/-- Limits that the library is built with. -/
structure SqliteLimits where
  parameterCount : ℕ
  sqlLength : ℕ
  patternLength : ℕ
  textLength : ℕ

/-- A text that the library accepts as a value. -/
def SqliteLimits.Bindable (l : SqliteLimits) (s : String) : Prop :=
  NulFree s ∧ s.utf8ByteSize ≤ l.textLength

/-- What SQLite does with the texts of the plugin on the tables of the domains. -/
structure SqliteEngine where
  limits : SqliteLimits
  exec : Database → String → QueryData × Database
  step : Database → String → List String → Bool × Database
  exec_selectValue : ∀ db domain key, domain ∈ kDomains → Literal key →
    (selectValue domain key).utf8ByteSize ≤ limits.sqlLength →
      exec db (selectValue domain key) = ((lookup db domain key).toList.map (column "value"), db)
  exec_selectKeys : ∀ db domain pre max, domain ∈ kDomains → Literal pre →
    (selectKeys domain pre max).utf8ByteSize ≤ limits.sqlLength →
    (pre ++ "%").utf8ByteSize ≤ limits.patternLength →
      ∃ keys : List String, exec db (selectKeys domain pre max) = (keys.map (column "key"), db) ∧
        (∀ k ∈ keys, (lookup db domain k).isSome = true ∧ like (pre ++ "%").toList k.toList = true) ∧
        (max = 0 → ∀ k, (lookup db domain k).isSome = true →
          like (pre ++ "%").toList k.toList = true → k ∈ keys)
  step_insertRows : ∀ db domain data, domain ∈ kDomains → data ≠ [] →
    2 * data.length ≤ limits.parameterCount →
    (insertRows domain data.length).utf8ByteSize ≤ limits.sqlLength →
    (∀ p ∈ data, limits.Bindable p.1 ∧ limits.Bindable p.2) →
      step db (insertRows domain data.length) (parameters data) =
        (true, Ephemeral.putBatch db domain data)
  step_insertNothing : ∀ db domain, step db (insertRows domain 0) [] = (false, db)
  step_deleteKey : ∀ db domain key, domain ∈ kDomains →
    (deleteKey domain).utf8ByteSize ≤ limits.sqlLength → limits.Bindable key →
      step db (deleteKey domain) [key] = (true, Ephemeral.remove db domain key)
  step_deleteKeys : ∀ db domain low high, domain ∈ kDomains →
    (deleteKeys domain).utf8ByteSize ≤ limits.sqlLength → limits.Bindable low →
    limits.Bindable high →
      step db (deleteKeys domain) [low, high] = (true, Ephemeral.removeRange db domain low high)

/-! ### The plugin -/

section Plugin

variable (E : SqliteEngine)

/-- A column of a row as `getData` leaves it, empty when it is missing. -/
def cell (r : Row) (name : String) : String := r.getD name ""

/-- The status of a prepared statement. -/
def stepStatus (r : Bool × Database) : Except String Unit × Database :=
  (if r.1 then .ok () else .error "", r.2)

/-- The value of the first row; a missing row is an error without a message. -/
def firstValue : List Row → Except String String
  | [] => .error ""
  | row :: _ => .ok (cell row "value")

/-- `SQLiteDatabasePlugin`: a call of the plugin on the tables. Every text and
every parameter is passed as a C string. -/
def sqlitePerform {β : Type} (o : Operation β) (db : Database) : Except String β × Database :=
  match o with
  | .get domain key =>
      let r := E.exec db (cstr (selectValue domain key))
      (firstValue r.1, r.2)
  | .put domain key value =>
      stepStatus (E.step db (cstr (insertRows domain 1)) [cstr key, cstr value])
  | .putBatch domain data =>
      stepStatus (E.step db (cstr (insertRows domain data.length))
        (parameters (data.map fun p => (cstr p.1, cstr p.2))))
  | .remove domain key => stepStatus (E.step db (cstr (deleteKey domain)) [cstr key])
  | .removeRange domain low high =>
      stepStatus (E.step db (cstr (deleteKeys domain)) [cstr low, cstr high])
  | .scan domain pre max =>
      let r := E.exec db (cstr (selectKeys domain pre max))
      (.ok (r.1.map fun row => cell row "key"), r.2)

end Plugin

/-! ### A library that behaves so -/

theorem domain_no_space {domain : String} (h : domain ∈ kDomains) : ' ' ∉ domain.toList := by
  simp only [kDomains, List.mem_cons, List.not_mem_nil, or_false] at h
  rcases h with rfl | rfl | rfl | rfl | rfl <;> decide

theorem selectValue_inj {d d' k k' : String} (hd : d ∈ kDomains) (hd' : d' ∈ kDomains)
    (h : selectValue d k = selectValue d' k') : d = d' ∧ k = k' := by
  have hfrom := (String.append_right_inj _).mp h
  obtain ⟨rfl, hwhere⟩ := append_text_inj (domain_no_space hd) (domain_no_space hd') (by decide)
    (by decide) hfrom
  exact ⟨rfl, (String.append_left_inj _).mp ((String.append_right_inj _).mp hwhere)⟩

theorem eq_zero_of_not_pos {n : UInt64} (h : ¬n > 0) : n = 0 := by
  rw [gt_iff_lt, UInt64.lt_iff_toNat_lt] at h
  apply UInt64.toNat_inj.mp
  exact Nat.eq_zero_of_not_pos h

theorem selectKeys_inj {d d' pre pre' : String} {max max' : UInt64} (hd : d ∈ kDomains)
    (hd' : d' ∈ kDomains) (hpre : Literal pre) (hpre' : Literal pre')
    (h : selectKeys d pre max = selectKeys d' pre' max') : d = d' ∧ pre = pre' ∧ max = max' := by
  have hfrom := (String.append_right_inj _).mp h
  obtain ⟨rfl, hwhere⟩ := append_text_inj (domain_no_space hd) (domain_no_space hd') (by decide)
    (by decide) hfrom
  have hquote : ∀ s : String, Literal s → '\x27' ∉ (s ++ "%").toList := by
    intro s hs
    simp only [String.toList_append, List.mem_append, not_or]
    exact ⟨hs.1, by decide⟩
  obtain ⟨hsame, hlimit⟩ := append_text_inj (hquote pre hpre) (hquote pre' hpre') (by decide)
    (by decide) ((String.append_right_inj _).mp hwhere)
  refine ⟨rfl, (String.append_left_inj _).mp hsame, ?_⟩
  have hlimit' := (String.append_right_inj _).mp hlimit
  split at hlimit' <;> split at hlimit'
  · exact UInt64.toNat_inj.mp (toText_inj.mp ((String.append_right_inj _).mp hlimit'))
  · exact absurd hlimit' (by simp)
  · exact absurd hlimit'.symm (by simp)
  · rename_i hzero hzero'
    exact (eq_zero_of_not_pos hzero).trans (eq_zero_of_not_pos hzero').symm

/-- Texts that begin differently are different. -/
theorem append_ne_append {a b : String} (n : ℕ) (ha : n ≤ a.toList.length)
    (hb : n ≤ b.toList.length) (hne : a.toList.take n ≠ b.toList.take n) (x y : String) :
    a ++ x ≠ b ++ y := by
  intro h
  have hl := congrArg (fun s => s.toList.take n) h
  simp only [String.toList_append, List.take_append_of_le_length ha,
    List.take_append_of_le_length hb] at hl
  exact hne hl

theorem selectValue_ne_selectKeys (d k d' pre : String) (max : UInt64) :
    selectValue d k ≠ selectKeys d' pre max :=
  append_ne_append 8 (by decide) (by decide) (by decide) _ _

/-- The queries of the plugin. -/
inductive Query
  | value (domain key : String)
  | keys (domain pre : String) (max : UInt64)

def Query.text : Query → String
  | .value domain key => selectValue domain key
  | .keys domain pre max => selectKeys domain pre max

def Query.Valid : Query → Prop
  | .value domain key => domain ∈ kDomains ∧ Literal key
  | .keys domain pre _ => domain ∈ kDomains ∧ Literal pre

theorem Query.text_inj {q q' : Query} (hq : q.Valid) (hq' : q'.Valid) (h : q.text = q'.text) :
    q = q' := by
  cases q with
  | value d k =>
      cases q' with
      | value d' k' =>
          obtain ⟨rfl, rfl⟩ := selectValue_inj hq.1 hq'.1 h
          rfl
      | keys d' pre max => exact absurd h (selectValue_ne_selectKeys d k d' pre max)
  | keys d pre max =>
      cases q' with
      | value d' k' => exact absurd h.symm (selectValue_ne_selectKeys d' k' d pre max)
      | keys d' pre' max' =>
          obtain ⟨rfl, rfl, rfl⟩ := selectKeys_inj hq.1 hq'.1 hq.2 hq'.2 h
          rfl

def Query.run (db : Database) : Query → QueryData
  | .value domain key => (lookup db domain key).toList.map (column "value")
  | .keys domain pre max =>
      let keys := (Ephemeral.domainOf db domain).keys.filter fun k =>
        like (pre ++ "%").toList k.toList
      (if max > 0 then keys.take max.toNat else keys).map (column "key")

theorem Query.run_keys (db : Database) (domain pre : String) (max : UInt64) :
    ∃ keys : List String, (Query.keys domain pre max).run db = keys.map (column "key") ∧
      (∀ k ∈ keys, (lookup db domain k).isSome = true ∧ like (pre ++ "%").toList k.toList = true) ∧
      (max = 0 → ∀ k, (lookup db domain k).isSome = true →
        like (pre ++ "%").toList k.toList = true → k ∈ keys) := by
  refine ⟨_, rfl, ?_, ?_⟩
  · intro k hk
    have hmem : k ∈ (Ephemeral.domainOf db domain).keys.filter fun k =>
        like (pre ++ "%").toList k.toList := by
      split at hk
      · exact List.mem_of_mem_take hk
      · exact hk
    rw [List.mem_filter, mem_keys_iff] at hmem
    exact hmem
  · rintro rfl k hstored hlike
    rw [if_neg (show ¬(0 : UInt64) > 0 by decide), List.mem_filter, mem_keys_iff]
    exact ⟨hstored, hlike⟩

/-- The statements of the plugin with their parameters. -/
inductive Statement
  | insert (domain : String) (data : List (String × String))
  | delete (domain key : String)
  | deleteRange (domain low high : String)

def Statement.text : Statement → String × List String
  | .insert domain data => (insertRows domain data.length, parameters data)
  | .delete domain key => (deleteKey domain, [key])
  | .deleteRange domain low high => (deleteKeys domain, [low, high])

def Statement.Valid : Statement → Prop
  | .insert domain data => domain ∈ kDomains ∧ data ≠ []
  | .delete domain _ => domain ∈ kDomains
  | .deleteRange domain _ _ => domain ∈ kDomains

def Statement.run (db : Database) : Statement → Database
  | .insert domain data => Ephemeral.putBatch db domain data
  | .delete domain key => Ephemeral.remove db domain key
  | .deleteRange domain low high => Ephemeral.removeRange db domain low high

theorem parameters_inj {data data' : List (String × String)}
    (h : parameters data = parameters data') : data = data' := by
  induction data generalizing data' with
  | nil =>
      cases data' with
      | nil => rfl
      | cons p rest => cases h
  | cons p rest ih =>
      cases data' with
      | nil => cases h
      | cons p' rest' =>
          have hcons : p.1 :: p.2 :: parameters rest = p'.1 :: p'.2 :: parameters rest' := h
          obtain ⟨h₁, h₂⟩ := List.cons.inj hcons
          obtain ⟨h₂, h₃⟩ := List.cons.inj h₂
          rw [ih h₃, Prod.ext h₁ h₂]

theorem insertRows_ne_delete (d : String) (n : ℕ) (x : String) :
    insertRows d n ≠ "delete from " ++ x :=
  append_ne_append 1 (by decide) (by decide) (by decide) _ _

theorem Statement.text_inj {q q' : Statement} (h : q.text = q'.text) : q = q' := by
  obtain ⟨htext, hparam⟩ := Prod.mk.inj h
  cases q with
  | insert d data =>
      cases q' with
      | insert d' data' =>
          obtain rfl := parameters_inj hparam
          have hd : d ++ _ = d' ++ _ := (String.append_right_inj _).mp htext
          rw [(String.append_left_inj _).mp hd]
      | delete d' k => exact absurd htext (insertRows_ne_delete d _ _)
      | deleteRange d' low high => exact absurd htext (insertRows_ne_delete d _ _)
  | delete d k =>
      cases q' with
      | insert d' data' => exact absurd htext.symm (insertRows_ne_delete d' _ _)
      | delete d' k' =>
          have hd : d ++ _ = d' ++ _ := (String.append_right_inj _).mp htext
          rw [(String.append_left_inj _).mp hd, (List.cons.inj hparam).1]
      | deleteRange d' low high => cases hparam
  | deleteRange d low high =>
      cases q' with
      | insert d' data' => exact absurd htext.symm (insertRows_ne_delete d' _ _)
      | delete d' k' => cases hparam
      | deleteRange d' low' high' =>
          have hd : d ++ _ = d' ++ _ := (String.append_right_inj _).mp htext
          obtain ⟨hlow, hrest⟩ := List.cons.inj hparam
          rw [(String.append_left_inj _).mp hd, hlow, (List.cons.inj hrest).1]

open Classical in
/-- The element of a set that a function takes to a value, if there is one. -/
noncomputable def invert {α β : Type} (valid : α → Prop) (f : α → β) (b : β) : Option α :=
  if h : ∃ a, valid a ∧ f a = b then some h.choose else none

theorem invert_apply {α β : Type} {valid : α → Prop} {f : α → β}
    (hinj : ∀ a a', valid a → valid a' → f a = f a' → a = a') {a : α} (ha : valid a) :
    invert valid f (f a) = some a := by
  have h : ∃ a', valid a' ∧ f a' = f a := ⟨a, ha, rfl⟩
  rw [invert, dif_pos h, hinj _ _ h.choose_spec.1 ha h.choose_spec.2]

theorem invert_eq_none {α β : Type} {valid : α → Prop} {f : α → β} {b : β}
    (h : ∀ a, valid a → f a ≠ b) : invert valid f b = none := by
  rw [invert, dif_neg]
  rintro ⟨a, ha, hab⟩
  exact h a ha hab

/-- A library that understands the texts of the plugin and refuses all others. -/
noncomputable def referenceSqlite : SqliteEngine where
  limits := ⟨250000, 1000000, 50000, 1000000000⟩
  exec db text :=
    match invert Query.Valid Query.text text with
    | some q => (q.run db, db)
    | none => ([], db)
  step db text params :=
    match invert Statement.Valid Statement.text (text, params) with
    | some q => (true, q.run db)
    | none => (false, db)
  exec_selectValue db domain key hd hkey _ := by
    have hq := invert_apply (f := Query.text) (fun _ _ => Query.text_inj)
      (show (Query.value domain key).Valid from ⟨hd, hkey⟩)
    rw [show selectValue domain key = (Query.value domain key).text from rfl, hq]
    rfl
  exec_selectKeys db domain pre max hd hpre _ _ := by
    have hq := invert_apply (f := Query.text) (fun _ _ => Query.text_inj)
      (show (Query.keys domain pre max).Valid from ⟨hd, hpre⟩)
    rw [show selectKeys domain pre max = (Query.keys domain pre max).text from rfl, hq]
    obtain ⟨keys, hrun, hkeys⟩ := Query.run_keys db domain pre max
    exact ⟨keys, congrArg (·, db) hrun, hkeys⟩
  step_insertRows db domain data hd hne _ _ _ := by
    have hq := invert_apply (f := Statement.text) (fun _ _ _ _ => Statement.text_inj)
      (show (Statement.insert domain data).Valid from ⟨hd, hne⟩)
    rw [show (insertRows domain data.length, parameters data) =
      (Statement.insert domain data).text from rfl, hq]
    rfl
  step_insertNothing db domain := by
    rw [invert_eq_none]
    intro q hq htext
    have hparam := congrArg Prod.snd htext
    cases q with
    | insert d data => exact hq.2 (@parameters_inj data [] hparam)
    | delete d k => cases hparam
    | deleteRange d low high => cases hparam
  step_deleteKey db domain key hd _ _ := by
    have hq := invert_apply (f := Statement.text) (fun _ _ _ _ => Statement.text_inj)
      (show (Statement.delete domain key).Valid from hd)
    rw [show (deleteKey domain, [key]) = (Statement.delete domain key).text from rfl, hq]
    rfl
  step_deleteKeys db domain low high hd _ _ _ := by
    have hq := invert_apply (f := Statement.text) (fun _ _ _ _ => Statement.text_inj)
      (show (Statement.deleteRange domain low high).Valid from hd)
    rw [show (deleteKeys domain, [low, high]) = (Statement.deleteRange domain low high).text
      from rfl, hq]
    rfl

end Osquery.Database
