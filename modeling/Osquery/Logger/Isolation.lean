import Osquery.Logger.Buffered

/-!
# Two forwarders in one domain

Forwarders with different names keep their lines in the same domain and tell them
apart by the name that an index begins with. Everything that a forwarder sends,
deletes or counts begins with its name. If a name is a prefix of another name, the
lines of the longer name are found, sent and removed by the shorter one.

## Implementation notes

The forwarders take turns in any order; each has its own counters, and both read
and write one database.
-/

namespace Osquery.Logger

open Core.BackingStore Database

/-! ### Two forwarders -/

/-- The database and the members of both forwarders. -/
structure Shared where
  db : Database
  first : Buffer
  second : Buffer

/-- A step of the first or of the second forwarder. -/
def Shared.step (f g : Forwarder) (s : Shared) : Forwarder.Action ⊕ Forwarder.Action → Shared
  | .inl action =>
      let s' := f.step ⟨s.first, s.db⟩ action
      { s with db := s'.db, first := s'.toBuffer }
  | .inr action =>
      let s' := g.step ⟨s.second, s.db⟩ action
      { s with db := s'.db, second := s'.toBuffer }

def Shared.run (f g : Forwarder) (actions : List (Forwarder.Action ⊕ Forwarder.Action))
    (s : Shared) : Shared :=
  actions.foldl (Shared.step f g) s

/-- No line of the other forwarder was sent, deleted or counted. -/
def Spares (b other : Buffer) : Prop :=
  ∀ line ∈ other.logged,
    line.1 ∉ b.sent.flatten.map Prod.fst ∧ line.1 ∉ b.deleted ∧ line.1 ∉ b.counted

/-- The forwarders leave each other's lines alone. -/
def Shared.Isolated (s : Shared) : Prop := Spares s.first s.second ∧ Spares s.second s.first

/-! ### What a forwarder touches -/

def Phase.keys : Phase → List String
  | .idle => []
  | .reading indexes todo lines => indexes ++ todo ++ (lines.1 ++ lines.2).map Prod.fst
  | .sendingResults indexes results statuses => indexes ++ (results ++ statuses).map Prod.fst
  | .clearingResults indexes todo statuses => indexes ++ todo ++ statuses.map Prod.fst
  | .sendingStatuses indexes statuses => indexes ++ statuses.map Prod.fst
  | .clearingStatuses todo => todo
  | .purging => []

/-- Every index that the forwarder logged, sent, deleted, counted or is about to
count or handle has a property. -/
structure Within (p : String → Prop) (b : Buffer) : Prop where
  logged : ∀ key ∈ b.logged.map Prod.fst, p key
  sent : ∀ key ∈ b.sent.flatten.map Prod.fst, p key
  deleted : ∀ key ∈ b.deleted, p key
  counted : ∀ key ∈ b.counted, p key
  counting : ∀ key ∈ b.counting, p key
  phase : ∀ key ∈ b.phase.keys, p key

namespace Within

variable {p : String → Prop} {s : State}

theorem new (p : String → Prop) : Within p Buffer.new := by
  constructor <;> intro key hkey <;> exact absurd hkey List.not_mem_nil

theorem setPhase (h : Within p s.toBuffer) {phase : Phase} (hphase : ∀ key ∈ phase.keys, p key) :
    Within p { s with phase := phase }.toBuffer :=
  ⟨h.logged, h.sent, h.deleted, h.counted, h.counting, hphase⟩

/-- The next phase handles what is left. -/
theorem narrow (h : Within p s.toBuffer) {phase : Phase} (hsub : phase.keys ⊆ s.phase.keys) :
    Within p { s with phase := phase }.toBuffer :=
  h.setPhase fun key hkey => h.phase key (hsub hkey)

theorem add (h : Within p s.toBuffer) {key : String} (hkey : p key) (text : String) :
    Within p (addValue key text s).toBuffer := by
  refine ⟨?_, h.sent, h.deleted, h.counted, ?_, h.phase⟩
  · intro a ha
    change a ∈ (s.logged ++ [(key, text)]).map Prod.fst at ha
    rw [List.map_append] at ha
    rcases List.mem_append.mp ha with ha | ha
    · exact h.logged a ha
    · exact List.mem_singleton.mp ha ▸ hkey
  · intro a ha
    rcases List.mem_append.mp ha with ha | ha
    · exact h.counting a ha
    · exact List.mem_singleton.mp ha ▸ hkey

theorem count (h : Within p s.toBuffer) (key : String) : Within p (countValue key s).toBuffer := by
  rw [countValue]
  split
  · rename_i hmem
    refine ⟨h.logged, h.sent, h.deleted, ?_, ?_, h.phase⟩
    · intro a ha
      rcases List.mem_append.mp ha with ha | ha
      · exact h.counted a ha
      · exact List.mem_singleton.mp ha ▸ h.counting key hmem
    · exact fun a ha => h.counting a (List.mem_of_mem_erase ha)
  · exact h

theorem delete (h : Within p s.toBuffer) {key : String} (hkey : p key) :
    Within p (deleteValue key s).toBuffer := by
  refine ⟨h.logged, h.sent, ?_, h.counted, h.counting, h.phase⟩
  intro a ha
  rcases List.mem_append.mp ha with ha | ha
  · exact h.deleted a ha
  · exact List.mem_singleton.mp ha ▸ hkey

theorem discount (h : Within p s.toBuffer) : Within p (discountValue s).toBuffer :=
  ⟨h.logged, h.sent, h.deleted, h.counted, h.counting, h.phase⟩

theorem setDiscounting (h : Within p s.toBuffer) (discounting : Bool) :
    Within p { s with discounting := discounting }.toBuffer :=
  ⟨h.logged, h.sent, h.deleted, h.counted, h.counting, h.phase⟩

theorem deleteAll {keys : List String} (h : Within p s.toBuffer) (hkeys : ∀ key ∈ keys, p key) :
    Within p (keys.foldl (fun s key => deleteValueWithCount key s) s).toBuffer := by
  induction keys generalizing s with
  | nil => exact h
  | cons key rest ih =>
      apply ih (h.delete (hkeys key List.mem_cons_self)).discount
      exact fun a ha => hkeys a (List.mem_cons_of_mem _ ha)

theorem send (h : Within p s.toBuffer) {lines : List Line} {phase : Phase}
    (hlines : lines.map Prod.fst ⊆ s.phase.keys) (hsub : phase.keys ⊆ s.phase.keys) :
    Within p { s with phase := phase, sent := s.sent ++ [lines] }.toBuffer := by
  refine ⟨h.logged, ?_, h.deleted, h.counted, h.counting, fun key hkey => h.phase key (hsub hkey)⟩
  intro key hkey
  change key ∈ (s.sent ++ [lines]).flatten.map Prod.fst at hkey
  rw [List.flatten_append, List.flatten_singleton, List.map_append] at hkey
  rcases List.mem_append.mp hkey with hkey | hkey
  · exact h.sent key hkey
  · exact h.phase key (hlines hkey)

/-- A list is sent and cleared, or passed over. -/
theorem sendOrSkip (h : Within p s.toBuffer) {lines : List Line} {cleared skipped : Phase}
    (hlines : lines.map Prod.fst ⊆ s.phase.keys) (hcleared : cleared.keys ⊆ s.phase.keys)
    (hskipped : skipped.keys ⊆ s.phase.keys) (c : Prop) [Decidable c] :
    Within p (if c then { s with phase := cleared, sent := s.sent ++ [lines] }
      else { s with phase := skipped }).toBuffer := by
  split
  · exact h.send hlines hcleared
  · exact h.narrow hskipped

/-- An index that was scanned is deleted, or kept for the other kind of line. -/
theorem clear (h : Within p s.toBuffer) {key : String} {phase : Phase}
    (hkey : key ∈ s.phase.keys) (hsub : phase.keys ⊆ s.phase.keys) (c : Prop) [Decidable c] :
    Within p (if c then deleteFirst key { s with phase := phase }
      else { s with phase := phase }).toBuffer := by
  have hrest := h.narrow hsub
  split
  · exact (hrest.delete (h.phase key hkey)).setDiscounting true
  · exact hrest

end Within

/-- The index begins with the name of the forwarder. -/
def Forwarder.Owns (f : Forwarder) (index : String) : Prop :=
  f.index_name.toList <+: index.toList

section Owns

variable {f : Forwarder} {s : State}

theorem owns_of_mem_scan {db : Database} {max : ℕ} {index : String}
    (h : index ∈ Ephemeral.scan db kLogs f.index_name max) : f.Owns index :=
  (of_mem_scan h).2

/-- The scans of the purge find indexes of the forwarder. -/
theorem owns_of_mem_prefix_scan {db : Database} {max : ℕ} {results : Bool} {index : String}
    (h : index ∈ Ephemeral.scan db kLogs (f.genIndexPrefix results) max) : f.Owns index := by
  refine List.IsPrefix.trans ?_ (of_mem_scan h).2
  simp [Forwarder.genIndexPrefix, List.append_assoc]

theorem within_purge (h : Within f.Owns s.toBuffer) (buffered_log_max : ℕ) :
    Within f.Owns (f.purge buffered_log_max s).toBuffer := by
  simp only [Forwarder.purge]
  split
  · exact h
  · split
    · exact h
    · apply Within.deleteAll
      · exact ⟨h.logged, h.sent, h.deleted, h.counted, h.counting, h.phase⟩
      · intro index hindex
        have hmem := List.mem_mergeSort.mp (List.mem_of_mem_take hindex)
        rcases List.mem_append.mp hmem with hmem | hmem
        · exact owns_of_mem_prefix_scan hmem
        · exact owns_of_mem_prefix_scan hmem

theorem readLine_keys {db : Database} {lines : List Line × List Line} {index key : String}
    (h : key ∈ ((f.readLine db lines index).1 ++ (f.readLine db lines index).2).map Prod.fst) :
    key ∈ (lines.1 ++ lines.2).map Prod.fst ∨ key = index := by
  rw [Forwarder.readLine] at h
  split at h
  · exact Or.inl h
  · split at h
    · simp only [List.map_append, List.mem_append, List.map_cons, List.map_nil,
        List.mem_singleton] at h ⊢
      tauto
    · simp only [List.map_append, List.mem_append, List.map_cons, List.map_nil,
        List.mem_singleton] at h ⊢
      tauto

/-- The next phase has no index that its phase lacks. -/
theorem reading_keys_subset (db : Database) (indexes todo : List String) (index : String)
    (lines : List Line × List Line) :
    (Phase.reading indexes todo (f.readLine db lines index)).keys ⊆
      (Phase.reading indexes (index :: todo) lines).keys := by
  intro key hkey
  rcases List.mem_append.mp hkey with hkey | hkey
  · apply List.mem_append_left
    simp only [List.mem_append, List.mem_cons] at hkey ⊢
    tauto
  · rcases readLine_keys hkey with hkey | rfl
    · exact List.mem_append_right _ hkey
    · apply List.mem_append_left
      simp

/-- A step of `check` handles what the scan found. -/
theorem within_proceed (h : Within f.Owns s.toBuffer) (sent : Bool) (buffered_log_max : ℕ) :
    Within f.Owns (f.proceed sent buffered_log_max s).toBuffer := by
  cases hphase : s.phase <;> simp only [Forwarder.proceed, hphase]
  case idle =>
    apply h.setPhase
    intro key hkey
    simp only [Phase.keys, List.append_nil, List.map_nil, List.mem_append, or_self] at hkey
    exact owns_of_mem_scan hkey
  case reading indexes todo lines =>
    cases todo with
    | nil =>
        apply h.narrow
        simp [hphase, Phase.keys]
    | cons index todo =>
        apply h.narrow
        rw [hphase]
        exact reading_keys_subset s.db indexes todo index lines
  case sendingResults indexes results statuses =>
    apply h.sendOrSkip <;> rw [hphase] <;> intro key hkey <;>
      simp only [Phase.keys, List.map_append, List.mem_append] at hkey ⊢ <;> tauto
  case clearingResults indexes todo statuses =>
    cases todo with
    | nil =>
        apply h.narrow
        simp [hphase, Phase.keys]
    | cons index todo =>
        apply h.clear
        · simp [hphase, Phase.keys]
        · rw [hphase]
          intro key hkey
          simp only [Phase.keys, List.mem_append, List.mem_cons] at hkey ⊢
          tauto
  case sendingStatuses indexes statuses =>
    apply h.sendOrSkip <;> rw [hphase] <;> simp [Phase.keys]
  case clearingStatuses todo =>
    cases todo with
    | nil =>
        apply h.narrow
        simp [Phase.keys]
    | cons index todo =>
        apply h.clear
        · simp [hphase, Phase.keys]
        · rw [hphase]
          exact List.subset_cons_self index todo
  case purging =>
    have hidle : Within f.Owns { s with phase := .idle }.toBuffer := by
      apply h.narrow
      simp [Phase.keys]
    split
    · exact within_purge hidle buffered_log_max
    · exact hidle

theorem within_advance (h : Within f.Owns s.toBuffer) (sent : Bool) (buffered_log_max : ℕ) :
    Within f.Owns (f.advance sent buffered_log_max s).toBuffer := by
  rw [Forwarder.advance]
  split
  · exact h.discount.setDiscounting false
  · exact within_proceed h sent buffered_log_max

theorem within_step (h : Within f.Owns s.toBuffer) (action : Forwarder.Action) :
    Within f.Owns (f.step s action).toBuffer := by
  cases action with
  | setUp =>
      refine ⟨h.logged, h.sent, h.deleted, ?_, h.counting, h.phase⟩
      intro index hindex
      rcases List.mem_append.mp hindex with hindex | hindex
      · exact h.counted index hindex
      · exact owns_of_mem_scan hindex
  | store results text time now =>
      have hnumber : Within f.Owns { s with log_index := s.log_index + 1 }.toBuffer :=
        ⟨h.logged, h.sent, h.deleted, h.counted, h.counting, h.phase⟩
      exact hnumber.add (name_prefix_index f results _ _) text
  | count key => exact h.count key
  | check sent buffered_log_max => exact within_advance h sent buffered_log_max

end Owns

/-! ### Names that are no prefixes -/

/-- Two forwarders that each stay within their own indexes. -/
theorem within_run {f g : Forwarder} (actions : List (Forwarder.Action ⊕ Forwarder.Action))
    {s : Shared} (hf : Within f.Owns s.first) (hg : Within g.Owns s.second) :
    Within f.Owns (Shared.run f g actions s).first ∧
      Within g.Owns (Shared.run f g actions s).second := by
  induction actions generalizing s with
  | nil => exact ⟨hf, hg⟩
  | cons action rest ih =>
      cases action with
      | inl action => exact ih (within_step (s := ⟨s.first, s.db⟩) hf action) hg
      | inr action => exact ih hf (within_step (s := ⟨s.second, s.db⟩) hg action)

theorem spares_of_within {f g : Forwarder} {b other : Buffer} (hb : Within f.Owns b)
    (hother : Within g.Owns other)
    (hnames : ¬f.index_name.toList <+: g.index_name.toList ∧
      ¬g.index_name.toList <+: f.index_name.toList) : Spares b other := by
  intro line hline
  have hforeign : ¬f.Owns line.1 := by
    intro howns
    have hlogged := hother.logged line.1 (List.mem_map_of_mem hline)
    rcases List.prefix_or_prefix_of_prefix howns hlogged with h | h
    · exact hnames.1 h
    · exact hnames.2 h
  exact ⟨fun h => hforeign (hb.sent _ h), fun h => hforeign (hb.deleted _ h),
    fun h => hforeign (hb.counted _ h)⟩

/-! ### A name that is a prefix -/

section Overlap

variable (f g : Forwarder) (s : Shared)

theorem run_append (actions actions' : List (Forwarder.Action ⊕ Forwarder.Action)) :
    Shared.run f g (actions ++ actions') s = Shared.run f g actions' (Shared.run f g actions s) :=
  List.foldl_append

theorem run_inl (actions : List Forwarder.Action) :
    Shared.run f g (actions.map Sum.inl) s =
      { s with
        db := (f.run actions ⟨s.first, s.db⟩).db
        first := (f.run actions ⟨s.first, s.db⟩).toBuffer } := by
  induction actions generalizing s with
  | nil => rfl
  | cons action rest ih =>
      exact ih { s with
        db := (f.step ⟨s.first, s.db⟩ action).db
        first := (f.step ⟨s.first, s.db⟩ action).toBuffer }

theorem run_inr (actions : List Forwarder.Action) :
    Shared.run f g (actions.map Sum.inr) s =
      { s with
        db := (g.run actions ⟨s.second, s.db⟩).db
        second := (g.run actions ⟨s.second, s.db⟩).toBuffer } := by
  induction actions generalizing s with
  | nil => rfl
  | cons action rest ih =>
      exact ih { s with
        db := (g.step ⟨s.second, s.db⟩ action).db
        second := (g.step ⟨s.second, s.db⟩ action).toBuffer }

variable {f}

/-- A scan of a domain with one key that the forwarder takes for its own. -/
theorem scan_single {index : String} (text : String) (howns : f.Owns index) (max : ℕ) :
    Ephemeral.scan (Ephemeral.setValue ∅ kLogs index text) kLogs f.index_name max = [index] := by
  set db := Ephemeral.setValue ∅ kLogs index text
  have hempty : Ephemeral.domainOf ∅ kLogs = ∅ := Std.ExtTreeMap.getD_empty
  have hlength : (Ephemeral.domainOf db kLogs).keys.length = 1 := by
    rw [length_keys_setValue text]
    · simp [hempty]
    · rw [lookup, hempty]
      exact Std.ExtTreeMap.getElem?_empty
  have hkeys : (Ephemeral.domainOf db kLogs).keys = [index] := by
    obtain ⟨key, hkey⟩ := List.length_eq_one_iff.mp hlength
    have hmem : index ∈ (Ephemeral.domainOf db kLogs).keys := by
      rw [mem_keys_iff, lookup_setValue]
      simp
    rw [hkey] at hmem ⊢
    rw [List.mem_singleton.mp hmem]
  have hfilter : [index].filter (fun key => f.index_name.toList.isPrefixOf key.toList) =
      [index] := by
    apply List.filter_eq_self.mpr
    intro key hkey
    rw [List.mem_singleton.mp hkey]
    exact List.isPrefixOf_iff_prefix.mpr howns
  rw [Ephemeral.scan]
  simp only [hkeys, hfilter]
  split
  · rename_i hmax
    exact List.take_of_length_le (Nat.succ_le_of_lt hmax)
  · rfl

/-- A check sends the one line that it takes for its own. -/
theorem sends_line {index : String} (text : String) (howns : f.Owns index) :
    (index, text) ∈ (f.run (List.replicate 5 (.check true 0))
      ⟨Buffer.new, Ephemeral.setValue ∅ kLogs index text⟩).sent.flatten := by
  have hget : Ephemeral.get (Ephemeral.setValue ∅ kLogs index text) kLogs index = .ok text := by
    rw [get_eq_ok_iff, lookup_setValue]
    simp
  cases hresult : f.isResultIndex index with
  | true =>
      simp [List.replicate, Forwarder.step, Forwarder.advance, Forwarder.proceed, Buffer.new, scan_single text howns,
        Forwarder.readLine, hget, hresult, deleteFirst, deleteValue]
  | false =>
      simp [List.replicate, Forwarder.step, Forwarder.advance, Forwarder.proceed, Buffer.new, scan_single text howns,
        Forwarder.readLine, hget, hresult]

/-- The forwarder with the shorter name sends a line of the other one. -/
theorem not_spares_of_prefix (h : f.index_name.toList <+: g.index_name.toList) {b : Buffer}
    (hb : (g.index true 1 1, "") ∈ b.logged) :
    ¬Spares (f.run (List.replicate 5 (.check true 0))
      ⟨Buffer.new, Ephemeral.setValue ∅ kLogs (g.index true 1 1) ""⟩).toBuffer b := by
  intro hspares
  have howns : f.Owns (g.index true 1 1) := h.trans (name_prefix_index g true 1 1)
  exact (hspares _ hb).1 (List.mem_map_of_mem (sends_line "" howns))

end Overlap

/-- The forwarders leave each other's lines alone in every run if and only if neither
name is a prefix of the other. -/
theorem isolated_iff (f g : Forwarder) :
    (∀ (db : Database) (actions : List (Forwarder.Action ⊕ Forwarder.Action)),
      (Shared.run f g actions ⟨db, Buffer.new, Buffer.new⟩).Isolated) ↔
    ¬f.index_name.toList <+: g.index_name.toList ∧
      ¬g.index_name.toList <+: f.index_name.toList := by
  constructor
  · intro hall
    constructor
    · intro h
      have hrun := (hall ∅ ([Forwarder.Action.store true "" 1 0].map Sum.inr ++
        (List.replicate 5 (Forwarder.Action.check true 0)).map Sum.inl)).1
      rw [run_append, run_inr, run_inl] at hrun
      exact not_spares_of_prefix g h List.mem_cons_self hrun
    · intro h
      have hrun := (hall ∅ ([Forwarder.Action.store true "" 1 0].map Sum.inl ++
        (List.replicate 5 (Forwarder.Action.check true 0)).map Sum.inr)).2
      rw [run_append, run_inl, run_inr] at hrun
      exact not_spares_of_prefix f h List.mem_cons_self hrun
  · intro hnames db actions
    obtain ⟨hf, hg⟩ := within_run (f := f) (g := g) actions
      (s := ⟨db, Buffer.new, Buffer.new⟩) (Within.new _) (Within.new _)
    exact ⟨spares_of_within hf hg hnames, spares_of_within hg hf hnames.symm⟩

/-! ### The forwarders `foo` and `foobar` -/

def foo : Forwarder := ⟨"foo", 1024⟩

def foobar : Forwarder := ⟨"foobar", 1024⟩

/-- One forwarder logs a line, and the other one checks. -/
def foreignActions : List (Forwarder.Action ⊕ Forwarder.Action) :=
  .inr (.store true "bar" 0 1600000000) :: List.replicate 5 (.inl (.check true 1000000))

/-- The line of one forwarder is sent by the other one. -/
theorem foreign_line_sent :
    foo.index_name ≠ foobar.index_name ∧
      ¬(Shared.run foo foobar foreignActions ⟨∅, Buffer.new, Buffer.new⟩).Isolated := by
  refine ⟨by decide, ?_⟩
  intro h
  have hlogged : ("foobar_r_1600000000_1", "bar") ∈
      (Shared.run foo foobar foreignActions ⟨∅, Buffer.new, Buffer.new⟩).second.logged := by
    decide +kernel
  exact (h.1 _ hlogged).1 (by decide +kernel)

end Osquery.Logger
