import Osquery.DistributedQueries.Queue

/-!
# Discovery queries

A work document may have a discovery query for some of its ids. The names of those
that returned rows are collected in one set, and an empty set selects every query:
the selection is right only if the discovery queries cover all ids or none, as the
outcomes require.

## Implementation notes

A discovery query is identified with its position, for a document may name an id
twice. What a call selects is read off the requests that it stored.
-/

namespace Osquery.DistributedQueries

open Foundation.JsonText Core.BackingStore Core.Rows Config

/-- The ids that have a discovery query. -/
def discoveryIds (doc : Json) : List String :=
  (entriesOf "discovery" doc).map fun entry => cstr entry.1

def queryIds (doc : Json) : List String :=
  (entriesOf "queries" doc).map fun entry => cstr entry.1

/-- A discovery query of the id was executed without an error and returned a row,
where the first of the entries is executed as number `n`. -/
def Discovers (sql : ℕ → String → SQL) (n : ℕ) (entries : List (String × Json)) (id : String) :
    Prop :=
  ∃ i entry, entries[i]? = some entry ∧ cstr entry.1 = id ∧
    (sql (n + i) (getString entry.2)).status.ok = true ∧
      (sql (n + i) (getString entry.2)).rows ≠ []

/-- The requests that a call stored. -/
def stored (s s' : Distributed) : List DistributedQueryRequest :=
  s'.accepted.drop s.accepted.length

/-- Exactly the queries without a discovery query and those whose discovery query
returned rows were stored. -/
def Gated (sql : ℕ → String → SQL) (doc : Json) (s s' : Distributed) : Prop :=
  ∀ id, id ∈ (stored s s').map DistributedQueryRequest.id ↔
    id ∈ queryIds doc ∧
      (id ∉ discoveryIds doc ∨ Discovers sql 0 (entriesOf "discovery" doc) id)

/-! ### The discovery queries -/

section Discover

variable {sql : ℕ → String → SQL}

theorem discovers_cons {n : ℕ} {entry : String × Json} {entries : List (String × Json)}
    {id : String} :
    Discovers sql n (entry :: entries) id ↔
      (cstr entry.1 = id ∧ (sql n (getString entry.2)).status.ok = true ∧
        (sql n (getString entry.2)).rows ≠ []) ∨ Discovers sql (n + 1) entries id := by
  constructor
  · rintro ⟨i, e, hentry, hmatch⟩
    cases i with
    | zero =>
        obtain rfl : entry = e := Option.some.inj hentry
        exact Or.inl hmatch
    | succ i =>
        refine Or.inr ⟨i, e, hentry, ?_⟩
        rw [Nat.add_assoc, Nat.add_comm 1 i]
        exact hmatch
  · rintro (hmatch | ⟨i, e, hentry, hmatch⟩)
    · exact ⟨0, entry, rfl, hmatch⟩
    · refine ⟨i + 1, e, hentry, ?_⟩
      rw [Nat.add_assoc, Nat.add_comm 1 i] at hmatch
      exact hmatch

/-- The collected names are those of the discovery queries that returned rows. -/
theorem mem_discover {n : ℕ} {entries : List (String × Json)} {names queries_to_run : List String}
    (h : discover sql n entries names = .ok queries_to_run) (id : String) :
    id ∈ queries_to_run ↔ id ∈ names ∨ Discovers sql n entries id := by
  induction entries generalizing n names with
  | nil =>
      obtain rfl : names = queries_to_run := Except.ok.inj h
      simp [Discovers]
  | cons entry entries ih =>
      obtain ⟨key, value⟩ := entry
      cases value with
      | str text =>
          simp only [discover] at h
          split at h
          · cases h
          · split at h
            · rename_i hok
              rw [ih h, discovers_cons]
              by_cases hrows : (sql n (cstr text)).rows = []
              · simp [hrows, getString]
              · have hlength := List.length_pos_iff.mpr hrows
                simp only [gt_iff_lt, hlength, if_true, List.mem_cons, getString, hok, hrows,
                  ne_eq, not_false_eq_true, and_self, and_true, eq_comm, or_assoc]
                exact or_left_comm
            · cases h
      | _ => cases h

theorem mem_discoveryIds_of_discovers {doc : Json} {n : ℕ} {id : String}
    (h : Discovers sql n (entriesOf "discovery" doc) id) : id ∈ discoveryIds doc := by
  obtain ⟨i, entry, hentry, rfl, -⟩ := h
  exact List.mem_map_of_mem (List.mem_of_getElem? hentry)

end Discover

/-! ### What is stored is pending -/

theorem accepted_accelerate (now : ℕ) (doc : Json) (s : Distributed) :
    (accelerate now doc s).accepted = s.accepted := by
  rw [accelerate]
  split
  · split <;> rfl
  · rfl

/-! ### The selected queries -/

def requestOf (entry : String × Json) : DistributedQueryRequest :=
  ⟨getString entry.2, cstr entry.1⟩

/-- A call that reads all entries stores the selected ones in their order. -/
theorem accepted_enqueue {queries_to_run : List String} {entries : List (String × Json)}
    {s : Distributed} (h : (enqueue queries_to_run entries s).1 = .ok ()) :
    (enqueue queries_to_run entries s).2.accepted =
      s.accepted ++ (entries.map requestOf).filter fun request =>
        decide (queries_to_run = [] ∨ request.id ∈ queries_to_run) := by
  induction entries generalizing s with
  | nil => simp [enqueue]
  | cons entry entries ih =>
      obtain ⟨key, value⟩ := entry
      cases value with
      | str text =>
          simp only [enqueue] at h ⊢
          split at h
          · cases h
          · rename_i hnames
            rw [if_neg hnames, ih h, List.map_cons, List.filter_cons]
            by_cases hselected : queries_to_run = [] ∨ cstr key ∈ queries_to_run
            · simp [requestOf, getString, hselected, accept]
            · simp [requestOf, hselected]
      | _ => cases h

/-- The ids that a document stores when it is accepted. -/
theorem mem_stored_acceptDocument {sql : ℕ → String → SQL} {now : ℕ} {doc : Json}
    {s : Distributed} (h : (acceptDocument sql now doc s).1 = .ok ()) (id : String) :
    id ∈ (stored s (acceptDocument sql now doc s).2).map DistributedQueryRequest.id ↔
      id ∈ queryIds doc ∧ ((∀ other, ¬Discovers sql 0 (entriesOf "discovery" doc) other) ∨
        Discovers sql 0 (entriesOf "discovery" doc) id) := by
  simp only [acceptDocument] at h ⊢
  split at h
  · cases h
  · rename_i queries_to_run hdiscover
    have hmem := mem_discover hdiscover
    simp only [List.not_mem_nil, false_or] at hmem
    have hempty : queries_to_run = [] ↔
        ∀ other, ¬Discovers sql 0 (entriesOf "discovery" doc) other := by
      rw [List.eq_nil_iff_forall_not_mem]
      exact forall_congr' fun other => not_congr (hmem other)
    split at h
    · cases h
    · rename_i s' heq
      have haccepted := accepted_enqueue (s := s) (congrArg Prod.fst heq)
      rw [heq] at haccepted
      simp only [stored, accepted_accelerate]
      rw [haccepted, List.drop_left, ← hempty, ← hmem id]
      simp only [List.mem_map, List.mem_filter, queryIds, decide_eq_true_eq]
      constructor
      · rintro ⟨request, ⟨⟨entry, hentry, rfl⟩, hselected⟩, rfl⟩
        exact ⟨⟨entry, hentry, rfl⟩, hselected⟩
      · rintro ⟨⟨entry, hentry, rfl⟩, hselected⟩
        exact ⟨requestOf entry, ⟨⟨entry, hentry, rfl⟩, hselected⟩, rfl⟩

/-- Two ways to select a listed id agree if and only if it is covered as the outcomes
require. -/
theorem selection_iff {listed covered discovered anyDiscovered : Prop}
    (hcovered : discovered → covered) (hany : discovered → anyDiscovered) :
    ((listed ∧ (¬anyDiscovered ∨ discovered)) ↔ (listed ∧ (¬covered ∨ discovered))) ↔
      (listed → (covered ↔ anyDiscovered)) := by
  by_cases h : discovered
  · simp [h, hcovered h, hany h]
  · simp only [h, or_false]
    tauto

/-- The discovery queries gate the queries of an accepted document exactly when the
ids with a discovery query are all ids or none: all if some discovery query returned
a row, none otherwise. -/
theorem gated_iff {json : JsonLibrary} {sql : ℕ → String → SQL} {now : ℕ} {work : String}
    {members : List (String × Json)} {s : Distributed}
    (hparse : json.parse (cstr work) = some (.obj members))
    (hok : (acceptWork json sql now work s).1 = .ok ()) :
    Gated sql (.obj members) s (acceptWork json sql now work s).2 ↔
      ∀ id ∈ queryIds (.obj members), id ∈ discoveryIds (.obj members) ↔
        ∃ other, Discovers sql 0 (entriesOf "discovery" (.obj members)) other := by
  simp only [acceptWork, hparse] at hok ⊢
  set doc := Json.obj members
  apply forall_congr'
  intro id
  rw [mem_stored_acceptDocument hok id, ← not_exists]
  exact selection_iff mem_discoveryIds_of_discovers fun hid => ⟨id, hid⟩

/-- Queries for two platforms, each with a discovery query. -/
def platformWork : Json :=
  .obj [("queries", .obj [("windows_info", .str "select * from system_info"),
      ("darwin_chrome_ex", .str "select * from chrome_extensions")]),
    ("discovery", .obj [("windows_info", .str "select * from os_version where platform='windows'"),
      ("darwin_chrome_ex", .str "select * from os_version where platform='darwin'")])]

/-- The outcomes on the platform with a number. -/
def platformSql (platform n : ℕ) (_ : String) : SQL :=
  ⟨.success, if n = platform then [∅] else [], []⟩

theorem parse_platformWork :
    reference.parse (cstr (reference.write platformWork)) = some platformWork :=
  parse_cstr_write reference platformWork

/-- The call for the platform with a number. -/
def acceptPlatformWork (platform : ℕ) : Except String Unit × Distributed :=
  acceptWork reference (platformSql platform) 0 (reference.write platformWork) (.new ∅)

theorem acceptPlatformWork_eq (platform : ℕ) :
    acceptPlatformWork platform =
      acceptDocument (platformSql platform) 0 platformWork (.new ∅) := by
  rw [acceptPlatformWork, acceptWork, parse_platformWork]
  rfl

theorem ids_platformWork : queryIds platformWork = ["windows_info", "darwin_chrome_ex"] ∧
    discoveryIds platformWork = ["windows_info", "darwin_chrome_ex"] := by
  decide +kernel

/-- On the first platform the first query is stored alone. -/
theorem gated_first_platform :
    Gated (platformSql 0) platformWork (.new ∅) (acceptPlatformWork 0).2 := by
  have hok : (acceptPlatformWork 0).1 = .ok () := by
    rw [acceptPlatformWork_eq]
    decide +kernel
  apply (gated_iff parse_platformWork hok).mpr
  intro id hid
  change id ∈ queryIds platformWork at hid
  rw [ids_platformWork.1] at hid
  change id ∈ discoveryIds platformWork ↔ _
  rw [ids_platformWork.2]
  refine iff_of_true hid ⟨cstr "windows_info", 0, _, rfl, rfl, rfl, ?_⟩
  simp [platformSql]

/-- On another platform no discovery query returns a row, and every query is stored. -/
theorem not_gated_other_platform :
    ¬Gated (platformSql 2) platformWork (.new ∅) (acceptPlatformWork 2).2 := by
  intro hgated
  have hstored : "windows_info" ∈
      (stored (.new ∅) (acceptPlatformWork 2).2).map DistributedQueryRequest.id := by
    rw [acceptPlatformWork_eq]
    decide +kernel
  obtain ⟨-, hnot | ⟨i, entry, hentry, -, -, hrows⟩⟩ := (hgated "windows_info").mp hstored
  · rw [ids_platformWork.2] at hnot
    exact hnot List.mem_cons_self
  · have hi : i < 2 := (List.getElem?_eq_some_iff.mp hentry).1
    simp [platformSql] at hrows
    omega

end Osquery.DistributedQueries
