import Osquery.DistributedQueries.Discovery

/-!
# Work that is rejected

The discovery queries are checked before anything is stored, and so is the text of
the document. The queries are not: they are stored one after the other, and when one
of them is malformed the call fails with those before it in the store.

## Implementation notes

What a rejected call may change is compared by lookups, of the pending queries and
of the whole domain of the settings. An entry that was stored by mistake leaves no
trace if the store held the same query under its key already.
-/

namespace Osquery.DistributedQueries

open Foundation.JsonText Core.BackingStore Core.Rows Config

/-- An entry of a work document whose name and query are texts. -/
structure WellFormed (entry : String × Json) : Prop where
  isString : ∃ text, entry.2 = .str text
  name_ne_empty : cstr entry.1 ≠ ""
  query_ne_empty : getString entry.2 ≠ ""

/-- The pending queries and the persistent settings are the same. -/
def SameStore (s s' : Distributed) : Prop :=
  (∀ id, lookup s'.db kQueries (queryKey id) = lookup s.db kQueries (queryKey id)) ∧
    ∀ key, lookup s'.db kPersistentSettings key = lookup s.db kPersistentSettings key

/-- A call that fails leaves everything as it was. -/
def RejectsCleanly (json : JsonLibrary) (sql : ℕ → String → SQL) (now : ℕ) (work : String)
    (s : Distributed) : Prop :=
  ∀ message, (acceptWork json sql now work s).1 = .error message →
    SameStore s (acceptWork json sql now work s).2

/-- The discovery queries from number `n` on are well-formed and succeed. -/
def Discoverable (sql : ℕ → String → SQL) (n : ℕ) (entries : List (String × Json)) : Prop :=
  ∀ i entry, entries[i]? = some entry →
    WellFormed entry ∧ (sql (n + i) (getString entry.2)).status.ok = true

/-- The discovery queries select the id. -/
def Selected (sql : ℕ → String → SQL) (doc : Json) (id : String) : Prop :=
  (∀ other, ¬Discovers sql 0 (entriesOf "discovery" doc) other) ∨
    Discovers sql 0 (entriesOf "discovery" doc) id

/-- Of the entries, the last one for each selected id is pending already. -/
def Pending (selected : String → Prop) (entries : List (String × Json)) (db : Database) : Prop :=
  ∀ before entry later, entries = before ++ entry :: later → selected (cstr entry.1) →
    (∀ other ∈ later, cstr other.1 ≠ cstr entry.1) →
    lookup db kQueries (queryKey (cstr entry.1)) = some (getString entry.2)

/-! ### Discovery -/

section Discover

variable {sql : ℕ → String → SQL}

theorem discoverable_cons {n : ℕ} {entry : String × Json} {entries : List (String × Json)} :
    Discoverable sql n (entry :: entries) ↔
      (WellFormed entry ∧ (sql n (getString entry.2)).status.ok = true) ∧
        Discoverable sql (n + 1) entries := by
  constructor
  · intro h
    refine ⟨h 0 entry rfl, fun i e he => ?_⟩
    rw [Nat.add_assoc, Nat.add_comm 1 i]
    exact h (i + 1) e he
  · rintro ⟨hfirst, hrest⟩ i e he
    cases i with
    | zero =>
        obtain rfl : entry = e := Option.some.inj he
        exact hfirst
    | succ i =>
        have h := hrest i e he
        rw [Nat.add_assoc, Nat.add_comm 1 i] at h
        exact h

theorem wellFormed_str {key text : String} :
    WellFormed (key, .str text) ↔ ¬(cstr text = "" ∨ cstr key = "") := by
  rw [not_or]
  exact ⟨fun h => ⟨h.query_ne_empty, h.name_ne_empty⟩, fun h => ⟨⟨text, rfl⟩, h.2, h.1⟩⟩

/-- The discovery passes if and only if all of its queries are well-formed and succeed. -/
theorem discover_ok_iff {n : ℕ} {entries : List (String × Json)} {names : List String} :
    (∃ queries_to_run, discover sql n entries names = .ok queries_to_run) ↔
      Discoverable sql n entries := by
  induction entries generalizing n names with
  | nil => exact iff_of_true ⟨names, rfl⟩ fun i entry h => by cases h
  | cons entry entries ih =>
      obtain ⟨key, value⟩ := entry
      rw [discoverable_cons]
      cases value with
      | str text =>
          simp only [discover]
          split
          · rename_i hbad
            apply iff_of_false
            · rintro ⟨_, h⟩
              cases h
            · exact fun h => wellFormed_str.mp h.1.1 hbad
          · rename_i hgood
            split
            · rename_i hok
              rw [ih, and_iff_right ⟨wellFormed_str.mpr hgood, hok⟩]
            · rename_i hfailed
              apply iff_of_false
              · rintro ⟨_, h⟩
                cases h
              · exact fun h => hfailed h.1.2
      | _ =>
          apply iff_of_false
          · rintro ⟨_, h⟩
            cases h
          · intro h
            obtain ⟨text, htext⟩ := h.1.1.isString
            cases htext

end Discover

/-! ### Storing one entry after the other -/

section Enqueue

variable {queries_to_run : List String} {s : Distributed}

/-- The selected ones of some well-formed entries have been stored. -/
def enqueueSelected (queries_to_run : List String) (entries : List (String × Json))
    (s : Distributed) : Distributed :=
  entries.foldl (fun s entry =>
    if queries_to_run = [] ∨ cstr entry.1 ∈ queries_to_run then accept (requestOf entry) s
    else s) s

theorem enqueue_append {sound rest : List (String × Json)} (h : ∀ entry ∈ sound, WellFormed entry) :
    enqueue queries_to_run (sound ++ rest) s =
      enqueue queries_to_run rest (enqueueSelected queries_to_run sound s) := by
  induction sound generalizing s with
  | nil => rfl
  | cons entry sound ih =>
      obtain ⟨hfirst, hsound⟩ := List.forall_mem_cons.mp h
      obtain ⟨key, value⟩ := entry
      obtain ⟨text, rfl⟩ : ∃ text, value = .str text := hfirst.isString
      have hnames : ¬(cstr key = "" ∨ cstr text = "") := by
        rw [or_comm]
        exact wellFormed_str.mp hfirst
      rw [List.cons_append, enqueue, if_neg hnames, ih hsound]
      rfl

theorem enqueue_malformed {entry : String × Json} {rest : List (String × Json)}
    (h : ¬WellFormed entry) : enqueue queries_to_run (entry :: rest) s =
      (.error "Distributed query is not a string", s) := by
  obtain ⟨key, value⟩ := entry
  cases value with
  | str text =>
      rw [wellFormed_str, not_not, or_comm] at h
      exact if_pos h
  | _ => rfl

/-- Entries are all well-formed, or there is a first one that is not. -/
theorem wellFormed_or_split (entries : List (String × Json)) :
    (∀ entry ∈ entries, WellFormed entry) ∨
      ∃ sound malformed rest, entries = sound ++ malformed :: rest ∧
        (∀ entry ∈ sound, WellFormed entry) ∧ ¬WellFormed malformed := by
  induction entries with
  | nil => exact Or.inl (List.forall_mem_nil _)
  | cons entry entries ih =>
      by_cases hentry : WellFormed entry
      · rcases ih with hall | ⟨sound, malformed, rest, rfl, hsound, hbad⟩
        · exact Or.inl (List.forall_mem_cons.mpr ⟨hentry, hall⟩)
        · exact Or.inr ⟨entry :: sound, malformed, rest, rfl,
            List.forall_mem_cons.mpr ⟨hentry, hsound⟩, hbad⟩
      · exact Or.inr ⟨[], entry, entries, rfl, List.forall_mem_nil _, hentry⟩

/-- Entries with other ids, and those that are not selected, leave a query alone. -/
theorem lookup_enqueueSelected_of_ne {entries : List (String × Json)} {id : String}
    (h : ∀ entry ∈ entries, (queries_to_run = [] ∨ cstr entry.1 ∈ queries_to_run) →
      cstr entry.1 ≠ id) :
    lookup (enqueueSelected queries_to_run entries s).db kQueries (queryKey id) =
      lookup s.db kQueries (queryKey id) := by
  induction entries generalizing s with
  | nil => rfl
  | cons entry entries ih =>
      obtain ⟨hentry, hentries⟩ := List.forall_mem_cons.mp h
      refine (ih hentries).trans ?_
      dsimp only
      by_cases hselected : queries_to_run = [] ∨ cstr entry.1 ∈ queries_to_run
      · rw [if_pos hselected, accept, lookup_setValue, if_neg]
        exact fun heq => hentry hselected (queryKey_inj heq.2)
      · rw [if_neg hselected]

/-- The last entry for a selected id is the one that is stored. -/
theorem lookup_enqueueSelected_last {before later : List (String × Json)} {entry : String × Json}
    (hselected : queries_to_run = [] ∨ cstr entry.1 ∈ queries_to_run)
    (hlast : ∀ other ∈ later, cstr other.1 ≠ cstr entry.1) :
    lookup (enqueueSelected queries_to_run (before ++ entry :: later) s).db kQueries
      (queryKey (cstr entry.1)) = some (getString entry.2) := by
  rw [enqueueSelected, List.foldl_append, List.foldl_cons, if_pos hselected]
  refine (lookup_enqueueSelected_of_ne fun other hother _ => hlast other hother).trans ?_
  rw [accept, lookup_setValue]
  exact if_pos ⟨rfl, rfl⟩

theorem exists_last_entry {entries : List (String × Json)} {id : String}
    (h : ∃ entry ∈ entries, cstr entry.1 = id) :
    ∃ before entry later, entries = before ++ entry :: later ∧ cstr entry.1 = id ∧
      ∀ other ∈ later, cstr other.1 ≠ id := by
  induction entries with
  | nil => exact absurd h (by simp)
  | cons first entries ih =>
      by_cases hlater : ∃ entry ∈ entries, cstr entry.1 = id
      · obtain ⟨before, entry, later, rfl, hid, hlast⟩ := ih hlater
        exact ⟨first :: before, entry, later, rfl, hid, hlast⟩
      · obtain ⟨entry, hmem, hid⟩ := h
        have hfirst : entry = first := (List.mem_cons.mp hmem).resolve_right fun hmem =>
          hlater ⟨entry, hmem, hid⟩
        exact ⟨[], first, entries, rfl, hfirst ▸ hid, fun other hother heq =>
          hlater ⟨other, hother, heq⟩⟩

/-- Storing entries changes no query if and only if the last ones for the selected ids are
pending already. -/
theorem lookup_enqueueSelected_iff {entries : List (String × Json)} :
    (∀ id, lookup (enqueueSelected queries_to_run entries s).db kQueries (queryKey id) =
      lookup s.db kQueries (queryKey id)) ↔
      Pending (fun id => queries_to_run = [] ∨ id ∈ queries_to_run) entries s.db := by
  constructor
  · rintro h before entry later rfl hselected hlast
    rw [← h, lookup_enqueueSelected_last hselected hlast]
  · intro h id
    by_cases hid : ∃ entry ∈ entries, cstr entry.1 = id
    · obtain ⟨before, entry, later, rfl, rfl, hlast⟩ := exists_last_entry hid
      by_cases hselected : queries_to_run = [] ∨ cstr entry.1 ∈ queries_to_run
      · rw [lookup_enqueueSelected_last hselected hlast]
        exact (h before entry later rfl hselected hlast).symm
      · apply lookup_enqueueSelected_of_ne
        intro other hother hselected' heq
        exact hselected (heq ▸ hselected')
    · exact lookup_enqueueSelected_of_ne fun entry hentry _ heq => hid ⟨entry, hentry, heq⟩

theorem settings_enqueueSelected (entries : List (String × Json)) (key : String) :
    lookup (enqueueSelected queries_to_run entries s).db kPersistentSettings key =
      lookup s.db kPersistentSettings key := by
  induction entries generalizing s with
  | nil => rfl
  | cons entry entries ih =>
      refine ih.trans ?_
      dsimp only
      split
      · rw [accept, lookup_setValue, if_neg]
        exact fun heq => absurd heq.1 (by decide)
      · rfl

end Enqueue

/-! ### Rejection -/

theorem pending_congr {selected selected' : String → Prop} (h : ∀ id, selected id ↔ selected' id)
    (entries : List (String × Json)) (db : Database) :
    Pending selected entries db ↔ Pending selected' entries db := by
  rw [show selected = selected' from funext fun id => propext (h id)]

theorem selected_iff {sql : ℕ → String → SQL} {doc : Json} {queries_to_run : List String}
    (h : discover sql 0 (entriesOf "discovery" doc) [] = .ok queries_to_run) (id : String) :
    (queries_to_run = [] ∨ id ∈ queries_to_run) ↔ Selected sql doc id := by
  have hmem := mem_discover h
  simp only [List.not_mem_nil, false_or] at hmem
  apply or_congr _ (hmem id)
  rw [List.eq_nil_iff_forall_not_mem]
  exact forall_congr' fun other => not_congr (hmem other)

/-- What a call stores that meets a malformed entry. -/
theorem acceptDocument_malformed {sql : ℕ → String → SQL} {now : ℕ} {doc : Json}
    {s : Distributed} {queries_to_run : List String} {sound rest : List (String × Json)}
    {malformed : String × Json}
    (hdiscover : discover sql 0 (entriesOf "discovery" doc) [] = .ok queries_to_run)
    (hentries : entriesOf "queries" doc = sound ++ malformed :: rest)
    (hsound : ∀ entry ∈ sound, WellFormed entry) (hmalformed : ¬WellFormed malformed) :
    acceptDocument sql now doc s =
      (.error "Distributed query is not a string", enqueueSelected queries_to_run sound s) := by
  rw [acceptDocument, hdiscover]
  dsimp only
  rw [hentries, enqueue_append hsound, enqueue_malformed hmalformed]

/-- A call without a malformed entry is accepted. -/
theorem acceptDocument_sound {sql : ℕ → String → SQL} {now : ℕ} {doc : Json} {s : Distributed}
    {queries_to_run : List String}
    (hdiscover : discover sql 0 (entriesOf "discovery" doc) [] = .ok queries_to_run)
    (hsound : ∀ entry ∈ entriesOf "queries" doc, WellFormed entry) :
    (acceptDocument sql now doc s).1 = .ok () := by
  rw [acceptDocument, hdiscover]
  dsimp only
  rw [← List.append_nil (entriesOf "queries" doc), enqueue_append hsound]
  rfl

theorem sameStore_enqueueSelected_iff {sql : ℕ → String → SQL} {doc : Json} {s : Distributed}
    {queries_to_run : List String} {sound : List (String × Json)}
    (hdiscover : discover sql 0 (entriesOf "discovery" doc) [] = .ok queries_to_run) :
    SameStore s (enqueueSelected queries_to_run sound s) ↔
      Pending (Selected sql doc) sound s.db := by
  rw [SameStore, and_iff_left (settings_enqueueSelected sound), lookup_enqueueSelected_iff]
  exact pending_congr (selected_iff hdiscover) sound s.db

/-- A rejected call leaves the pending queries and the settings as they were if and only if it
fails before the queries are read, or the last well-formed entries for the selected ids before
the first malformed one were pending as they are. -/
theorem rejectsCleanly_iff (json : JsonLibrary) (sql : ℕ → String → SQL) (now : ℕ)
    (work : String) (s : Distributed) :
    RejectsCleanly json sql now work s ↔
      ∀ members, json.parse (cstr work) = some (.obj members) →
        Discoverable sql 0 (entriesOf "discovery" (.obj members)) →
        ∀ sound malformed rest,
          entriesOf "queries" (.obj members) = sound ++ malformed :: rest →
          (∀ entry ∈ sound, WellFormed entry) → ¬WellFormed malformed →
          Pending (Selected sql (.obj members)) sound s.db := by
  constructor
  · intro h members hparse hpasses sound malformed rest hentries hsound hmalformed
    obtain ⟨queries_to_run, hdiscover⟩ := discover_ok_iff.mpr hpasses
    have heq : acceptWork json sql now work s = (.error "Distributed query is not a string",
        enqueueSelected queries_to_run sound s) := by
      rw [acceptWork, hparse]
      exact acceptDocument_malformed hdiscover hentries hsound hmalformed
    have hsame := h _ (congrArg Prod.fst heq)
    rw [heq] at hsame
    exact (sameStore_enqueueSelected_iff hdiscover).mp hsame
  · intro h message herror
    have hunchanged : SameStore s s := ⟨fun _ => rfl, fun _ => rfl⟩
    rw [acceptWork] at herror ⊢
    split at herror
    · rename_i members hparse
      cases hdiscover : discover sql 0 (entriesOf "discovery" (.obj members)) [] with
      | error what =>
          rw [acceptDocument, hdiscover]
          exact hunchanged
      | ok queries_to_run =>
          rcases wellFormed_or_split (entriesOf "queries" (.obj members)) with
            hall | ⟨sound, malformed, rest, hentries, hsound, hmalformed⟩
          · rw [acceptDocument_sound hdiscover hall] at herror
            cases herror
          · rw [acceptDocument_malformed hdiscover hentries hsound hmalformed]
            apply (sameStore_enqueueSelected_iff hdiscover).mpr
            exact h members hparse (discover_ok_iff.mp ⟨_, hdiscover⟩) sound malformed rest
              hentries hsound hmalformed
    · exact hunchanged

/-- Two queries, of which the second is a number. -/
def malformedWork : Json :=
  .obj [("queries", .obj [("users", .str "select * from users"), ("hosts", .int 7)])]

/-- The first query of a rejected document is pending afterwards. -/
theorem not_rejectsCleanly_malformedWork :
    ¬RejectsCleanly reference (platformSql 0) 0 (reference.write malformedWork) (.new ∅) := by
  have hrun : acceptWork reference (platformSql 0) 0 (reference.write malformedWork) (.new ∅) =
      acceptDocument (platformSql 0) 0 malformedWork (.new ∅) := by
    rw [acceptWork, parse_cstr_write reference malformedWork]
    rfl
  have herror : (acceptDocument (platformSql 0) 0 malformedWork (.new ∅)).1 =
      .error "Distributed query is not a string" := by
    decide +kernel
  intro h
  have hsame := (h _ (hrun ▸ herror)).1 "users"
  rw [hrun] at hsame
  exact absurd hsame (by decide +kernel)

end Osquery.DistributedQueries
