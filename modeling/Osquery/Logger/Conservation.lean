import Osquery.Foundation.Custody
import Osquery.Foundation.Simulation
import Osquery.Logger.Buffered

/-!
# Buffered lines are neither lost nor duplicated

A forwarder that is the only user of the logs domain keeps a ledger: its lines are
logged under distinct indexes and are sent or purged at most once. The domain tracks
the ledger at every moment between two steps. The counter and the counts that are still
to come make up the size of the domain, until a delete is to be taken off a counter that
is zero: the line that was deleted is counted after that, and stays counted.

## Implementation notes

A line is identified with the index that it is logged under. The indexes that were
sent and are still to be removed are read off the phase of `check`.
-/

namespace Osquery.Logger

open Core.BackingStore Database Foundation.Custody Foundation.Simulation

/-! ### The property -/

section Property

variable (f : Forwarder) (s : State) (line : Line)

/-- The line is stored, and its delete is not still to come. -/
def Buffered : Prop :=
  lookup s.db kLogs line.1 = some line.2 ∧ line.1 ∉ f.pending s.phase

/-- The line was in a successful send. -/
def Sent : Prop := line ∈ s.sent.flatten

def Purged : Prop := line.1 ∈ s.purged

end Property

/-- No line is lost or duplicated. -/
structure Conserved (f : Forwarder) (s : State) : Prop where
  distinct : (s.logged.map Prod.fst).Nodup
  exactly_one : ∀ line ∈ s.logged,
    ExactlyOne (Buffered f s line) (Sent s line) (Purged s line)
  sent_once : (s.sent.flatten.map Prod.fst).Nodup
  sent_logged : ∀ line ∈ s.sent.flatten, line ∈ s.logged
  deleted_left : ∀ key ∈ s.deleted, ∃ line ∈ s.logged, line.1 = key ∧ (Sent s line ∨ Purged s line)
  stored_logged : ∀ line : Line, lookup s.db kLogs line.1 = some line.2 → line ∈ s.logged

/-- The counter is the number of keys, with the counts that are still to come. -/
def Counted (s : State) : Prop :=
  s.buffer_count + s.counting.length =
    (Ephemeral.domainOf s.db kLogs).keys.length + s.discounting.toNat

/-- The counter is set while a count is to come, or a delete is to be taken off a counter that is
zero. -/
def Miscounts (s : State) : Forwarder.Action → Prop
  | .setUp => s.counting.length ≠ s.discounting.toNat
  | .check _ _ => s.discounting = true ∧ s.buffer_count = 0
  | _ => False

instance (s : State) : Decidable (Counted s) := inferInstanceAs (Decidable (_ = _))

instance (s : State) : DecidablePred (Miscounts s)
  | .setUp => inferInstanceAs (Decidable (_ ≠ _))
  | .check _ _ => inferInstanceAs (Decidable (_ ∧ _))
  | .store _ _ _ _ => .isFalse not_false
  | .count _ => .isFalse not_false

/-- A forwarder that has just been constructed, and nobody used the logs domain. -/
structure Fresh (s : State) : Prop where
  new : s.toBuffer = Buffer.new
  unused : Ephemeral.domainOf s.db kLogs = ∅

/-! ### The store tracks the ledger -/

/-- The indexes that came in, and those that were sent or purged. -/
def Buffer.ledger (b : Buffer) : Ledger String :=
  ⟨b.logged.map Prod.fst, b.sent.flatten.map Prod.fst, b.purged⟩

/-- What the domain holds while some indexes are still to be removed. -/
structure Stored (f : Forwarder) (s : State) (pending : List String) : Prop where
  tracks : s.ledger.Tracks (fun key => (lookup s.db kLogs key).isSome = true) pending
  generated : ∀ key ∈ s.ledger.logged, ∃ results time number,
    number ≤ s.log_index ∧ key = f.index results time number
  texts : ∀ line : Line, lookup s.db kLogs line.1 = some line.2 → line ∈ s.logged
  sent_logged : ∀ line ∈ s.sent.flatten, line ∈ s.logged
  deleted_gone : ∀ key ∈ s.deleted, key ∈ s.ledger.gone

namespace Stored

variable {f : Forwarder} {s : State} {pending : List String}

theorem setPhase (h : Stored f s pending) (phase : Phase) :
    Stored f { s with phase := phase } pending :=
  ⟨h.tracks, h.generated, h.texts, h.sent_logged, h.deleted_gone⟩

theorem logged_of_present (h : Stored f s pending) {key : String}
    (hkey : (lookup s.db kLogs key).isSome = true) : key ∈ s.ledger.logged := by
  obtain ⟨text, htext⟩ := Option.isSome_iff_exists.mp hkey
  exact List.mem_map_of_mem (h.texts (key, text) htext)

/-- The index of the next line is new. -/
theorem fresh (h : Stored f s pending) (results : Bool) (time : ℕ) :
    f.index results time (s.log_index + 1) ∉ s.ledger.logged := by
  intro hmem
  obtain ⟨results', time', number, hle, heq⟩ := h.generated _ hmem
  have hnumber := number_of_index f heq
  omega

/-- The index of the next line is not in the domain. -/
theorem absent (h : Stored f s pending) (results : Bool) (time : ℕ) :
    lookup s.db kLogs (f.index results time (s.log_index + 1)) = none :=
  Option.not_isSome_iff_eq_none.mp fun hsome => h.fresh results time (h.logged_of_present hsome)

/-- A line is added under a new index. -/
theorem addIndex (h : Stored f s pending) (results : Bool) (text : String) (time : ℕ) :
    Stored f (addValue (f.index results time (s.log_index + 1)) text
      { s with log_index := s.log_index + 1 }) pending := by
  set key := f.index results time (s.log_index + 1) with hkey
  have hfresh : key ∉ s.ledger.logged := h.fresh results time
  have hlookup : ∀ a, lookup (Ephemeral.setValue s.db kLogs key text) kLogs a =
      if key = a then some text else lookup s.db kLogs a := by
    intro a
    simp
  have hledger : ({ s.toBuffer with logged := s.logged ++ [(key, text)] } : Buffer).ledger =
      s.ledger.log key := by
    simp [Buffer.ledger, Ledger.log]
  constructor
  · change Ledger.Tracks ({ s.toBuffer with logged := s.logged ++ [(key, text)] } : Buffer).ledger
      (fun a => (lookup (Ephemeral.setValue s.db kLogs key text) kLogs a).isSome = true) _
    rw [hledger]
    apply h.tracks.log hfresh
    intro a
    rw [hlookup]
    by_cases ha : key = a
    · simp [ha]
    · simp [ha, Ne.symm ha]
  · intro a ha
    change a ∈ ({ s.toBuffer with logged := s.logged ++ [(key, text)] } : Buffer).ledger.logged at ha
    rw [hledger] at ha
    rcases List.mem_append.mp ha with ha | ha
    · obtain ⟨results', time', number, hle, heq⟩ := h.generated a ha
      exact ⟨results', time', number, Nat.le_succ_of_le hle, heq⟩
    · exact ⟨results, time, s.log_index + 1, le_rfl, List.mem_singleton.mp ha⟩
  · intro line hline
    change lookup (Ephemeral.setValue s.db kLogs key text) kLogs line.1 = some line.2 at hline
    rw [hlookup] at hline
    split at hline
    · rename_i heq
      apply List.mem_append_right
      rw [List.mem_singleton]
      exact Prod.ext heq.symm (Option.some.inj hline).symm
    · exact List.mem_append_left _ (h.texts line hline)
  · intro line hline
    exact List.mem_append_left _ (h.sent_logged line hline)
  · exact h.deleted_gone

theorem storeLine (h : Stored f s pending) (results : Bool) (text : String) (time now : ℕ) :
    Stored f (f.storeLine results text time now s) pending :=
  h.addIndex results text (if time = 0 then now else time)

theorem count (h : Stored f s pending) (key : String) : Stored f (countValue key s) pending := by
  rw [countValue]
  split
  · exact ⟨h.tracks, h.generated, h.texts, h.sent_logged, h.deleted_gone⟩
  · exact h

theorem setUp (h : Stored f s pending) : Stored f (f.setUp s) pending :=
  ⟨h.tracks, h.generated, h.texts, h.sent_logged, h.deleted_gone⟩

/-- The scan of `setUp` finds every key. -/
theorem length_scan (h : Stored f s pending) :
    (Ephemeral.scan s.db kLogs f.index_name 0).length =
      (Ephemeral.domainOf s.db kLogs).keys.length := by
  have hall : (Ephemeral.domainOf s.db kLogs).keys.filter
      (fun key => f.index_name.toList.isPrefixOf key.toList) =
        (Ephemeral.domainOf s.db kLogs).keys := by
    apply List.filter_eq_self.mpr
    intro key hkey
    obtain ⟨results, time, number, -, rfl⟩ :=
      h.generated key (h.logged_of_present ((mem_keys_iff _ _ _).mp hkey))
    exact List.isPrefixOf_iff_prefix.mpr (name_prefix_index f results time number)
  simp only [Ephemeral.scan, gt_iff_lt, lt_self_iff_false, if_false, hall]

theorem send (h : Stored f s []) {lines : List Line} (hnodup : (lines.map Prod.fst).Nodup)
    (hheld : ∀ key ∈ lines.map Prod.fst, s.ledger.Held key)
    (hlogged : ∀ line ∈ lines, line ∈ s.logged) :
    Stored f { s with sent := s.sent ++ [lines] } (lines.map Prod.fst) := by
  have hledger : ({ s.toBuffer with sent := s.sent ++ [lines] } : Buffer).ledger =
      s.ledger.send (lines.map Prod.fst) := by
    simp [Buffer.ledger, Ledger.send]
  constructor
  · change Ledger.Tracks ({ s.toBuffer with sent := s.sent ++ [lines] } : Buffer).ledger _ _
    rw [hledger]
    exact h.tracks.send hnodup hheld
  · exact h.generated
  · exact h.texts
  · intro line hline
    rw [List.flatten_append, List.flatten_singleton] at hline
    rcases List.mem_append.mp hline with hline | hline
    · exact h.sent_logged line hline
    · exact hlogged line hline
  · intro key hkey
    change key ∈ ({ s.toBuffer with sent := s.sent ++ [lines] } : Buffer).ledger.gone
    rw [hledger]
    exact Ledger.mem_gone_send.mpr (Or.inl (h.deleted_gone key hkey))

theorem delete {key : String} (h : Stored f s (key :: pending)) :
    Stored f (deleteValue key s) pending := by
  have hlookup : ∀ a, lookup (Ephemeral.remove s.db kLogs key) kLogs a =
      if key = a then none else lookup s.db kLogs a := by
    intro a
    simp
  constructor
  · apply h.tracks.remove
    intro a
    change (lookup (Ephemeral.remove s.db kLogs key) kLogs a).isSome = true ↔ _
    rw [hlookup]
    by_cases ha : key = a
    · simp [ha]
    · simp [ha, Ne.symm ha]
  · exact h.generated
  · intro line hline
    apply h.texts
    change lookup (Ephemeral.remove s.db kLogs key) kLogs line.1 = some line.2 at hline
    rw [hlookup] at hline
    split at hline
    · cases hline
    · exact hline
  · exact h.sent_logged
  · intro a ha
    rcases List.mem_append.mp ha with ha | ha
    · exact h.deleted_gone a ha
    · rw [List.mem_singleton.mp ha]
      exact h.tracks.gone_of_pending key List.mem_cons_self

theorem discount (h : Stored f s pending) : Stored f (discountValue s) pending :=
  ⟨h.tracks, h.generated, h.texts, h.sent_logged, h.deleted_gone⟩

theorem setDiscounting (h : Stored f s pending) (discounting : Bool) :
    Stored f { s with discounting := discounting } pending :=
  ⟨h.tracks, h.generated, h.texts, h.sent_logged, h.deleted_gone⟩

/-- Deleting everything that awaits its removal. -/
theorem deleteAll {keys : List String} (h : Stored f s keys) :
    Stored f (keys.foldl (fun s key => deleteValueWithCount key s) s) [] := by
  induction keys generalizing s with
  | nil => exact h
  | cons key rest ih => exact ih h.delete.discount

/-- The lines that a scan finds when nothing awaits its removal are held. -/
theorem held_of_mem_scan (h : Stored f s []) {pre key : String} {max : ℕ}
    (hkey : key ∈ Ephemeral.scan s.db kLogs pre max) : s.ledger.Held key :=
  h.tracks.held_iff.mpr ⟨(of_mem_scan hkey).1, List.not_mem_nil⟩

/-- A purge does nothing, or deletes as many held lines as the counter allows. -/
theorem purge_cases (h : Stored f s []) (buffered_log_max : ℕ) :
    f.purge buffered_log_max s = s ∨ ∃ keys, keys.length ≤ s.buffer_count ∧
      Stored f { s with purged := s.purged ++ keys } keys ∧
      f.purge buffered_log_max s = keys.foldl (fun s key => deleteValueWithCount key s)
        { s with purged := s.purged ++ keys } := by
  simp only [Forwarder.purge]
  split
  · exact .inl rfl
  · split
    · exact .inl rfl
    · set count := s.buffer_count - buffered_log_max with hcount
      set indexes := Ephemeral.scan s.db kLogs (f.genIndexPrefix true) count ++
        Ephemeral.scan s.db kLogs (f.genIndexPrefix false) count with hindexes
      have hheld : ∀ key ∈ f.oldest count indexes, s.ledger.Held key := by
        intro key hkey
        have hmem := List.mem_mergeSort.mp (List.mem_of_mem_take hkey)
        rcases List.mem_append.mp hmem with hmem | hmem
        · exact h.held_of_mem_scan hmem
        · exact h.held_of_mem_scan hmem
      have hnodup : (f.oldest count indexes).Nodup := by
        apply List.Nodup.sublist (List.take_sublist _ _)
        apply (List.mergeSort_perm indexes _).nodup_iff.mpr
        apply (nodup_scan _ _ _ _).append (nodup_scan _ _ _ _)
        intro key hresult hstatus
        exact disjoint_prefixes f (of_mem_scan hresult).2 (of_mem_scan hstatus).2
      refine .inr ⟨f.oldest count indexes, ?_, ?_, rfl⟩
      · exact (List.length_take_le _ _).trans (Nat.sub_le _ _)
      · constructor
        · exact h.tracks.drop hnodup hheld
        · exact h.generated
        · exact h.texts
        · exact h.sent_logged
        · intro key hkey
          exact Ledger.mem_gone_drop.mpr (Or.inl (h.deleted_gone key hkey))

theorem purge (h : Stored f s []) (buffered_log_max : ℕ) :
    Stored f (f.purge buffered_log_max s) [] := by
  rcases h.purge_cases buffered_log_max with hnone | ⟨keys, -, hdrop, hpurge⟩
  · rw [hnone]
    exact h
  · rw [hpurge]
    exact hdrop.deleteAll

/-- A delete takes one key out of the domain. -/
theorem length_keys_delete {key : String} (h : Stored f s (key :: pending)) :
    (Ephemeral.domainOf (deleteValue key s).db kLogs).keys.length + 1 =
      (Ephemeral.domainOf s.db kLogs).keys.length := by
  have hpresent := h.tracks.present_of_pending List.mem_cons_self
  have hpos := List.length_pos_of_mem ((mem_keys_iff _ _ _).mpr hpresent)
  have hremove := length_keys_remove hpresent
  change (Ephemeral.domainOf (Ephemeral.remove s.db kLogs key) kLogs).keys.length + 1 = _
  omega

end Stored

/-! ### The phases of a check -/

theorem deleteAll_phase (keys : List String) (s : State) :
    (keys.foldl (fun s key => deleteValueWithCount key s) s).phase = s.phase := by
  induction keys generalizing s with
  | nil => rfl
  | cons key rest ih => exact ih (deleteValueWithCount key s)

theorem purge_phase (f : Forwarder) (buffered_log_max : ℕ) (s : State) :
    (f.purge buffered_log_max s).phase = s.phase := by
  simp only [Forwarder.purge]
  split
  · rfl
  · split
    · rfl
    · exact deleteAll_phase _ _

/-- Indexes that are held, and the logged lines that were read under them. -/
structure Unsent (l : Ledger String) (logged : List Line) (indexes : List String)
    (lines : List Line) : Prop where
  keys : lines.map Prod.fst = indexes
  nodup : indexes.Nodup
  held : ∀ key ∈ indexes, l.Held key
  mem_logged : ∀ line ∈ lines, line ∈ logged

/-- The results and the status lines that were read under some indexes. -/
structure Collected (f : Forwarder) (l : Ledger String) (logged : List Line)
    (indexes : List String) (lines : List Line × List Line) : Prop where
  results : Unsent l logged (indexes.filter f.isResultIndex) lines.1
  statuses : Unsent l logged (indexes.filter fun index => !f.isResultIndex index) lines.2

/-- What a phase of `check` knows. -/
def Forwarder.Knows (f : Forwarder) (l : Ledger String) (logged : List Line) : Phase → Prop
  | .idle => True
  | .reading indexes todo lines =>
      (indexes.Nodup ∧ ∀ key ∈ indexes, l.Held key) ∧
        ∃ done, indexes = done ++ todo ∧ Collected f l logged done lines
  | .sendingResults indexes results statuses =>
      (∀ key ∈ indexes, key ∈ l.logged) ∧ Collected f l logged indexes (results, statuses)
  | .clearingResults indexes _ statuses =>
      (∀ key ∈ indexes, key ∈ l.logged) ∧
        Unsent l logged (indexes.filter fun index => !f.isResultIndex index) statuses
  | .sendingStatuses indexes statuses =>
      (∀ key ∈ indexes, key ∈ l.logged) ∧
        Unsent l logged (indexes.filter fun index => !f.isResultIndex index) statuses
  | .clearingStatuses _ => True
  | .purging => True

/-- The invariant of a forwarder that is alone in its domain. -/
structure Kept (f : Forwarder) (s : State) : Prop where
  stored : Stored f s (f.pending s.phase)
  knows : f.Knows s.ledger s.logged s.phase

section Knows

variable {f : Forwarder} {l l' : Ledger String} {logged logged' : List Line}
  {indexes : List String} {lines : List Line}

/-- What a phase knows stays true while lines are added. -/
theorem Unsent.mono (h : Unsent l logged indexes lines)
    (hheld : ∀ key, l.Held key → l'.Held key)
    (hlogged : ∀ line ∈ logged, line ∈ logged') : Unsent l' logged' indexes lines :=
  ⟨h.keys, h.nodup, fun key hkey => hheld key (h.held key hkey),
    fun line hline => hlogged line (h.mem_logged line hline)⟩

theorem Forwarder.Knows.mono {phase : Phase} (h : f.Knows l logged phase)
    (hkeys : ∀ key ∈ l.logged, key ∈ l'.logged)
    (hheld : ∀ key, l.Held key → l'.Held key)
    (hlogged : ∀ line ∈ logged, line ∈ logged') : f.Knows l' logged' phase := by
  cases phase with
  | idle => trivial
  | reading indexes todo lines =>
      obtain ⟨⟨hnodup, hindexes⟩, done, heq, hresults, hstatuses⟩ := h
      exact ⟨⟨hnodup, fun key hkey => hheld key (hindexes key hkey)⟩, done, heq,
        hresults.mono hheld hlogged, hstatuses.mono hheld hlogged⟩
  | sendingResults indexes results statuses =>
      obtain ⟨hindexes, hresults, hstatuses⟩ := h
      exact ⟨fun key hkey => hkeys key (hindexes key hkey), hresults.mono hheld hlogged,
        hstatuses.mono hheld hlogged⟩
  | clearingResults indexes todo statuses =>
      exact ⟨fun key hkey => hkeys key (h.1 key hkey), h.2.mono hheld hlogged⟩
  | sendingStatuses indexes statuses =>
      exact ⟨fun key hkey => hkeys key (h.1 key hkey), h.2.mono hheld hlogged⟩
  | clearingStatuses todo => trivial
  | purging => trivial

/-- Reading one more line. -/
theorem Collected.readLine {s : State} {done : List String} {index : String}
    {lines : List Line × List Line} (h : Collected f s.ledger s.logged done lines)
    (hstored : Stored f s []) (hheld : s.ledger.Held index) (hnew : index ∉ done) :
    Collected f s.ledger s.logged (done ++ [index]) (f.readLine s.db lines index) := by
  obtain ⟨text, htext⟩ := Option.isSome_iff_exists.mp (hstored.tracks.held_iff.mp hheld).1
  have hread : f.readLine s.db lines index =
      if f.isResultIndex index then (lines.1 ++ [(index, text)], lines.2)
      else (lines.1, lines.2 ++ [(index, text)]) := by
    rw [Forwarder.readLine, (get_eq_ok_iff _ _ _ _).mpr htext]
  have hadd : ∀ {p : String → Bool} {read : List Line},
      Unsent s.ledger s.logged (done.filter p) read → p index = true →
        Unsent s.ledger s.logged ((done ++ [index]).filter p) (read ++ [(index, text)]) := by
    intro p read hread hp
    have hfilter : (done ++ [index]).filter p = done.filter p ++ [index] := by
      simp [hp]
    rw [hfilter]
    constructor
    · rw [List.map_append, hread.keys]
      rfl
    · apply hread.nodup.append (List.nodup_singleton _)
      intro key hkey hindex
      exact hnew (List.mem_singleton.mp hindex ▸ List.mem_of_mem_filter hkey)
    · intro key hkey
      rcases List.mem_append.mp hkey with hkey | hkey
      · exact hread.held key hkey
      · exact List.mem_singleton.mp hkey ▸ hheld
    · intro line hline
      rcases List.mem_append.mp hline with hline | hline
      · exact hread.mem_logged line hline
      · rw [List.mem_singleton.mp hline]
        exact hstored.texts (index, text) htext
  have hskip : ∀ {p : String → Bool} {read : List Line},
      Unsent s.ledger s.logged (done.filter p) read → p index = false →
        Unsent s.ledger s.logged ((done ++ [index]).filter p) read := by
    intro p read hread hp
    have hfilter : (done ++ [index]).filter p = done.filter p := by
      simp [hp]
    rw [hfilter]
    exact hread
  rw [hread]
  cases hresult : f.isResultIndex index with
  | true => exact ⟨hadd h.results hresult, hskip h.statuses (by simp [hresult])⟩
  | false => exact ⟨hskip h.results hresult, hadd h.statuses (by simp [hresult])⟩

end Knows

/-! ### Every step keeps the invariant -/

namespace Kept

variable {f : Forwarder} {s : State}

theorem setUp (h : Kept f s) : Kept f (f.setUp s) := ⟨h.stored.setUp, h.knows⟩

theorem storeLine (h : Kept f s) (results : Bool) (text : String) (time now : ℕ) :
    Kept f (f.storeLine results text time now s) := by
  have hkeys : ∀ key ∈ s.ledger.logged,
      key ∈ (f.storeLine results text time now s).ledger.logged := by
    intro key hkey
    obtain ⟨line, hline, heq⟩ := List.mem_map.mp hkey
    exact List.mem_map.mpr ⟨line, List.mem_append_left _ hline, heq⟩
  refine ⟨h.stored.storeLine results text time now, h.knows.mono hkeys ?_ ?_⟩
  · exact fun key hkey => ⟨hkeys key hkey.1, hkey.2⟩
  · exact fun line hline => List.mem_append_left _ hline

theorem count (h : Kept f s) (key : String) : Kept f (countValue key s) := by
  have hstored := h.stored.count key
  rw [countValue] at hstored ⊢
  split
  · rename_i hmem
    rw [if_pos hmem] at hstored
    exact ⟨hstored, h.knows⟩
  · exact h

theorem discount (h : Kept f s) : Kept f { discountValue s with discounting := false } :=
  ⟨h.stored.discount.setDiscounting false, h.knows⟩

/-- A result index is no status index, and every other index is one. -/
theorem isStatusIndex_eq {pending : List String} (h : Stored f s pending) {key : String}
    (hkey : key ∈ s.ledger.logged) : f.isStatusIndex key = !f.isResultIndex key := by
  obtain ⟨results, time, number, -, rfl⟩ := h.generated key hkey
  rw [Forwarder.isStatusIndex, Forwarder.isResultIndex, isIndex_index, isIndex_index]
  cases results <;> rfl

theorem scan (h : Stored f s []) :
    Kept f { s with
      phase := .reading (Ephemeral.scan s.db kLogs f.index_name f.max_log_lines)
        (Ephemeral.scan s.db kLogs f.index_name f.max_log_lines) ([], []) } := by
  have hnone : Unsent s.ledger s.logged [] [] :=
    ⟨rfl, List.nodup_nil, fun _ hkey => absurd hkey List.not_mem_nil,
      fun _ hline => absurd hline List.not_mem_nil⟩
  refine ⟨h.setPhase _, ⟨nodup_scan _ _ _ _, ?_⟩, [], rfl, hnone, hnone⟩
  exact fun key hkey => h.held_of_mem_scan hkey

theorem read (h : Stored f s []) {indexes todo : List String} {index : String}
    {lines : List Line × List Line}
    (hknows : f.Knows s.ledger s.logged (.reading indexes (index :: todo) lines)) :
    Kept f { s with phase := .reading indexes todo (f.readLine s.db lines index) } := by
  obtain ⟨⟨hnodup, hheld⟩, done, rfl, hlines⟩ := hknows
  have hnew : index ∉ done := by
    intro hmem
    exact List.disjoint_of_nodup_append hnodup hmem List.mem_cons_self
  have hindex : s.ledger.Held index :=
    hheld index (List.mem_append_right _ List.mem_cons_self)
  refine ⟨h.setPhase _, ⟨hnodup, hheld⟩, done ++ [index], ?_, hlines.readLine h hindex hnew⟩
  rw [List.append_assoc]
  rfl

theorem endReading (h : Stored f s []) {indexes : List String} {lines : List Line × List Line}
    (hknows : f.Knows s.ledger s.logged (.reading indexes [] lines)) :
    Kept f { s with phase := .sendingResults indexes lines.1 lines.2 } := by
  obtain ⟨⟨-, hheld⟩, done, heq, hlines⟩ := hknows
  rw [List.append_nil] at heq
  subst heq
  exact ⟨h.setPhase _, fun key hkey => (hheld key hkey).1, hlines⟩

/-- The results leave; the status lines stay. -/
theorem sendResults (h : Stored f s []) {indexes : List String} {results statuses : List Line}
    (hknows : f.Knows s.ledger s.logged (.sendingResults indexes results statuses)) :
    Kept f { s with
      phase := .clearingResults indexes indexes statuses, sent := s.sent ++ [results] } := by
  obtain ⟨hindexes, hresults, hstatuses⟩ := hknows
  have hkeys : results.map Prod.fst = indexes.filter f.isResultIndex := hresults.keys
  have hsend := h.send (hkeys ▸ hresults.nodup) (hkeys ▸ hresults.held) hresults.mem_logged
  rw [hkeys] at hsend
  refine ⟨hsend.setPhase _, hindexes, hstatuses.keys, hstatuses.nodup, ?_, hstatuses.mem_logged⟩
  intro key hkey
  have hnot : key ∉ indexes.filter f.isResultIndex := by
    intro hresult
    have hstatus := (List.mem_filter.mp hkey).2
    rw [(List.mem_filter.mp hresult).2] at hstatus
    cases hstatus
  have hledger : ({ s.toBuffer with
      phase := .clearingResults indexes indexes statuses
      sent := s.sent ++ [results] } : Buffer).ledger =
        s.ledger.send (indexes.filter f.isResultIndex) := by
    rw [← hkeys]
    simp [Buffer.ledger, Ledger.send]
  change ({ s.toBuffer with
    phase := .clearingResults indexes indexes statuses
    sent := s.sent ++ [results] } : Buffer).ledger.Held key
  rw [hledger]
  exact Ledger.held_send.mpr ⟨hstatuses.held key hkey, hnot⟩

theorem clearResult {indexes todo : List String} {statuses : List Line} {index : String}
    (h : Stored f s (f.pending (.clearingResults indexes (index :: todo) statuses)))
    (hknows : f.Knows s.ledger s.logged (.clearingResults indexes (index :: todo) statuses)) :
    Kept f (if f.isResultIndex index then
        deleteFirst index { s with phase := .clearingResults indexes todo statuses }
      else { s with phase := .clearingResults indexes todo statuses }) := by
  rw [Forwarder.pending, List.filter_cons] at h
  split
  · rename_i hresult
    rw [if_pos hresult] at h
    exact ⟨(h.setPhase _).delete.setDiscounting true, hknows⟩
  · rename_i hresult
    rw [if_neg hresult] at h
    exact ⟨h.setPhase _, hknows⟩

/-- The status lines leave. -/
theorem sendStatuses (h : Stored f s []) {indexes : List String} {statuses : List Line}
    (hknows : f.Knows s.ledger s.logged (.sendingStatuses indexes statuses)) :
    Kept f { s with phase := .clearingStatuses indexes, sent := s.sent ++ [statuses] } := by
  obtain ⟨hindexes, hstatuses⟩ := hknows
  have hkeys : statuses.map Prod.fst = indexes.filter f.isStatusIndex := by
    rw [hstatuses.keys]
    apply List.filter_congr
    exact fun key hkey => (isStatusIndex_eq h (hindexes key hkey)).symm
  rw [← hstatuses.keys] at hstatuses
  have hsend := h.send hstatuses.nodup hstatuses.held hstatuses.mem_logged
  rw [hkeys] at hsend
  exact ⟨hsend.setPhase _, trivial⟩

theorem clearStatus {todo : List String} {index : String}
    (h : Stored f s (f.pending (.clearingStatuses (index :: todo)))) :
    Kept f (if f.isStatusIndex index then
        deleteFirst index { s with phase := .clearingStatuses todo }
      else { s with phase := .clearingStatuses todo }) := by
  rw [Forwarder.pending, List.filter_cons] at h
  split
  · rename_i hstatus
    rw [if_pos hstatus] at h
    exact ⟨(h.setPhase _).delete.setDiscounting true, trivial⟩
  · rename_i hstatus
    rw [if_neg hstatus] at h
    exact ⟨h.setPhase _, trivial⟩

theorem purge (h : Stored f s []) (buffered_log_max : ℕ) :
    Kept f (if buffered_log_max > 0 then f.purge buffered_log_max { s with phase := .idle }
      else { s with phase := .idle }) := by
  split
  · have hphase : (f.purge buffered_log_max { s with phase := .idle }).phase = .idle :=
      purge_phase f buffered_log_max { s with phase := .idle }
    refine ⟨?_, ?_⟩
    · rw [hphase]
      exact (h.setPhase .idle).purge buffered_log_max
    · rw [hphase]
      trivial
  · exact ⟨h.setPhase _, trivial⟩

theorem proceed (h : Kept f s) (sent : Bool) (buffered_log_max : ℕ) :
    Kept f (f.proceed sent buffered_log_max s) := by
  obtain ⟨hstored, hknows⟩ := h
  cases hphase : s.phase <;> rw [hphase] at hstored hknows
  case idle =>
    simp only [Forwarder.proceed, hphase]
    exact scan hstored
  case reading indexes todo lines =>
    cases todo with
    | nil =>
        simp only [Forwarder.proceed, hphase]
        exact endReading hstored hknows
    | cons index todo =>
        simp only [Forwarder.proceed, hphase]
        exact read hstored hknows
  case sendingResults indexes results statuses =>
    simp only [Forwarder.proceed, hphase]
    split
    · exact sendResults hstored hknows
    · exact ⟨hstored.setPhase _, hknows.1, hknows.2.statuses⟩
  case clearingResults indexes todo statuses =>
    cases todo with
    | nil =>
        simp only [Forwarder.proceed, hphase]
        exact ⟨hstored.setPhase _, hknows⟩
    | cons index todo =>
        simp only [Forwarder.proceed, hphase]
        exact clearResult hstored hknows
  case sendingStatuses indexes statuses =>
    simp only [Forwarder.proceed, hphase]
    split
    · exact sendStatuses hstored hknows
    · exact ⟨hstored.setPhase _, trivial⟩
  case clearingStatuses todo =>
    cases todo with
    | nil =>
        simp only [Forwarder.proceed, hphase]
        exact ⟨hstored.setPhase _, trivial⟩
    | cons index todo =>
        simp only [Forwarder.proceed, hphase]
        exact clearStatus hstored
  case purging =>
    simp only [Forwarder.proceed, hphase]
    exact purge hstored buffered_log_max

theorem advance (h : Kept f s) (sent : Bool) (buffered_log_max : ℕ) :
    Kept f (f.advance sent buffered_log_max s) := by
  rw [Forwarder.advance]
  split
  · exact h.discount
  · exact h.proceed sent buffered_log_max

theorem step (h : Kept f s) (action : Forwarder.Action) : Kept f (f.step s action) := by
  cases action with
  | setUp => exact h.setUp
  | store results text time now => exact h.storeLine results text time now
  | count key => exact h.count key
  | check sent buffered_log_max => exact h.advance sent buffered_log_max

theorem run (h : Kept f s) (actions : List Forwarder.Action) : Kept f (f.run actions s) := by
  induction actions generalizing s with
  | nil => exact h
  | cons action rest ih => exact ih (h.step action)

theorem conserves (h : Kept f s) : Conserved f s := by
  obtain ⟨⟨htracks, -, htexts, hsent, hdeleted⟩, -⟩ := h
  have hdistinct : (s.logged.map Prod.fst).Nodup := htracks.balanced.nodup_logged
  have heq : ∀ {line line' : Line}, line ∈ s.logged → line' ∈ s.logged → line.1 = line'.1 →
      line = line' :=
    fun hline hline' hkey => List.inj_on_of_nodup_map hdistinct hline hline' hkey
  have hbuffered : ∀ line ∈ s.logged, Buffered f s line ↔ s.ledger.Held line.1 := by
    intro line hline
    rw [htracks.held_iff, Buffered]
    apply and_congr_left
    intro _
    refine ⟨fun h => Option.isSome_iff_exists.mpr ⟨_, h⟩, fun h => ?_⟩
    obtain ⟨text, htext⟩ := Option.isSome_iff_exists.mp h
    have hsame := heq (htexts (line.1, text) htext) hline rfl
    rw [htext, ← congrArg Prod.snd hsame]
  have hmem : ∀ line ∈ s.logged, Sent s line ↔ line.1 ∈ s.ledger.sent := by
    intro line hline
    refine ⟨fun h => List.mem_map_of_mem h, fun h => ?_⟩
    obtain ⟨line', hline', hkey⟩ := List.mem_map.mp h
    exact heq (hsent line' hline') hline hkey ▸ hline'
  constructor
  · exact hdistinct
  · intro line hline
    rw [hbuffered line hline, hmem line hline]
    exact htracks.balanced.exactly_one (List.mem_map_of_mem hline)
  · exact htracks.balanced.nodup_gone.of_append_left
  · exact hsent
  · intro key hkey
    have hgone := hdeleted key hkey
    obtain ⟨line, hline, rfl⟩ := List.mem_map.mp (htracks.balanced.logged_of_gone key hgone)
    refine ⟨line, hline, rfl, ?_⟩
    rw [hmem line hline]
    exact Ledger.mem_gone.mp hgone
  · exact htexts

end Kept

theorem Fresh.kept {s : State} (h : Fresh s) (f : Forwarder) : Kept f s := by
  obtain ⟨buffer, db⟩ := s
  obtain rfl : buffer = Buffer.new := h.new
  have hempty : Ephemeral.domainOf db kLogs = ∅ := h.unused
  have hnone : ∀ key, lookup db kLogs key = none := by
    intro key
    rw [lookup, hempty]
    exact Std.ExtTreeMap.getElem?_empty
  refine ⟨⟨⟨⟨List.nodup_nil, List.nodup_nil, ?_⟩, ?_, ?_, List.nodup_nil⟩, ?_, ?_, ?_, ?_⟩,
    trivial⟩
  · exact fun key hkey => absurd hkey List.not_mem_nil
  · intro key
    simp [hnone, Ledger.Held, Buffer.ledger, Buffer.new, Forwarder.pending]
  · exact fun key hkey => absurd hkey List.not_mem_nil
  · exact fun key hkey => absurd hkey List.not_mem_nil
  · intro line hline
    rw [hnone] at hline
    cases hline
  · exact fun line hline => absurd hline List.not_mem_nil
  · exact fun key hkey => absurd hkey List.not_mem_nil

theorem Fresh.counted {s : State} (h : Fresh s) : Counted s := by
  obtain ⟨buffer, db⟩ := s
  obtain rfl : buffer = Buffer.new := h.new
  have hempty : Ephemeral.domainOf db kLogs = ∅ := h.unused
  simp [Counted, Buffer.new, hempty]

/-! ### The counter -/

namespace Counted

variable {f : Forwarder} {s : State} {pending : List String}

theorem storeLine (hc : Counted s) (h : Stored f s pending) (results : Bool) (text : String)
    (time now : ℕ) : Counted (f.storeLine results text time now s) := by
  have hkeys := length_keys_setValue text (h.absent results (if time = 0 then now else time))
  have hcounting : (f.storeLine results text time now s).counting.length =
      s.counting.length + 1 := List.length_append
  rw [Counted] at hc ⊢
  rw [hcounting]
  change s.buffer_count + _ = (Ephemeral.domainOf (Ephemeral.setValue _ _ _ _) kLogs).keys.length + _
  rw [hkeys, ← Nat.add_assoc, hc]
  exact Nat.add_right_comm _ _ _

theorem count (hc : Counted s) (key : String) : Counted (countValue key s) := by
  rw [countValue]
  split
  · rename_i hmem
    have hpos := List.length_pos_of_mem hmem
    have herase := List.length_erase_of_mem hmem
    simp only [Counted] at hc ⊢
    omega
  · exact hc

theorem setUp_iff (h : Stored f s pending) :
    Counted (f.setUp s) ↔ s.counting.length = s.discounting.toNat := by
  have hscan := h.length_scan
  simp only [Counted, Forwarder.setUp]
  omega

theorem deleteFirst {key : String} (hc : Counted s) (h : Stored f s (key :: pending))
    (hd : s.discounting = false) : Counted (Logger.deleteFirst key s) := by
  have hkeys := h.length_keys_delete
  simp only [Counted, Logger.deleteFirst, hd, Bool.toNat_false, Bool.toNat_true] at hc ⊢
  rw [hkeys]
  exact hc

theorem discount_iff (hc : Counted s) (hd : s.discounting = true) :
    Counted { discountValue s with discounting := false } ↔ s.buffer_count ≠ 0 := by
  simp only [Counted, discountValue, hd, Bool.toNat_false, Bool.toNat_true] at hc ⊢
  split <;> omega

/-- The counter is not zero while there are lines to delete. -/
theorem deleteAll {keys : List String} (hc : Counted s) (h : Stored f s keys)
    (hle : keys.length ≤ s.buffer_count) :
    Counted (keys.foldl (fun s key => deleteValueWithCount key s) s) := by
  induction keys generalizing s with
  | nil => exact hc
  | cons key rest ih =>
      have hkeys := h.length_keys_delete
      have hpos : s.buffer_count > 0 := Nat.lt_of_lt_of_le (Nat.succ_pos _) hle
      have hcount : (deleteValueWithCount key s).buffer_count = s.buffer_count - 1 := if_pos hpos
      rw [List.length_cons] at hle
      have hrest : rest.length ≤ (deleteValueWithCount key s).buffer_count := by omega
      refine ih ?_ h.delete.discount hrest
      simp only [Counted] at hc ⊢
      rw [hcount]
      change _ + s.counting.length =
        (Ephemeral.domainOf (deleteValue key s).db kLogs).keys.length + s.discounting.toNat
      omega

theorem purge (hc : Counted s) (h : Stored f s []) (buffered_log_max : ℕ) :
    Counted (f.purge buffered_log_max s) := by
  rcases h.purge_cases buffered_log_max with hnone | ⟨keys, hle, hdrop, hpurge⟩
  · rw [hnone]
    exact hc
  · rw [hpurge]
    exact deleteAll (s := { s with purged := s.purged ++ keys }) hc hdrop hle

theorem proceed (hc : Counted s) (h : Stored f s (f.pending s.phase)) (hd : s.discounting = false)
    (sent : Bool) (buffered_log_max : ℕ) : Counted (f.proceed sent buffered_log_max s) := by
  rcases f.proceed_cases sent buffered_log_max s with
    ⟨phase, more, hstep⟩ | ⟨phase, key, hpending, hstep⟩ | ⟨hpending, hstep⟩
  all_goals rw [hstep]
  · exact hc
  · rw [hpending] at h
    exact deleteFirst (s := { s with phase := phase }) hc (h.setPhase _) hd
  · rw [hpending] at h
    exact purge (s := { s with phase := .idle }) hc (h.setPhase .idle) buffered_log_max

theorem step_iff (hc : Counted s) (h : Kept f s) (action : Forwarder.Action) :
    Counted (f.step s action) ↔ ¬Miscounts s action := by
  cases action with
  | setUp => exact (setUp_iff h.stored).trans not_not.symm
  | store results text time now =>
      exact iff_of_true (hc.storeLine h.stored results text time now) not_false
  | count key => exact iff_of_true (hc.count key) not_false
  | check sent buffered_log_max =>
      rw [Forwarder.step, Forwarder.advance, Miscounts]
      split
      · rename_i hd
        rw [discount_iff hc hd, and_iff_right hd]
      · rename_i hd
        rw [Bool.not_eq_true] at hd
        exact iff_of_true (hc.proceed h.stored hd sent buffered_log_max) fun hboth =>
          Bool.noConfusion (hd.symm.trans hboth.1)

end Counted

/-- No line is lost or duplicated at any moment of any interleaving, and the counter is right at
every moment exactly when it is never set, or lowered from zero, while a count is to come. -/
theorem conserved (f : Forwarder) (s : State) (h : Fresh s) (actions : List Forwarder.Action) :
    Conserved f (f.run actions s) ∧
      (Throughout f.step (fun s action => Counted (f.step s action)) s actions ↔
        Throughout f.step (fun s action => ¬Miscounts s action) s actions) := by
  refine ⟨((h.kept f).run actions).conserves, ?_⟩
  refine throughout_iff_of_invariant (I := fun s => Kept f s ∧ Counted s)
    (fun s action hs _ => hs.2.step_iff hs.1 action) (fun s action hs _ hgood => ?_)
    ⟨h.kept f, h.counted⟩ throughout_true
  exact ⟨hs.1.step action, (hs.2.step_iff hs.1 action).mpr hgood⟩

/-! ### A failed send -/

def mock : Forwarder := ⟨"mock", 1024⟩

/-- A result and a status line are logged; the result is sent after a failure, and is
about to be removed when the next one comes. -/
def retryActions : List Forwarder.Action :=
  [.store true "foo" 0 1600000000, .store false "log1" 0 1600000000,
    .count "mock_s_1600000000_2", .count "mock_r_1600000000_1"] ++
    List.replicate 7 (.check false 1000000) ++ List.replicate 5 (.check true 1000000) ++
      [.store true "bar" 0 1600000001]

theorem conserved_retry : Conserved mock (mock.run retryActions ⟨Buffer.new, ∅⟩) ∧
    Throughout mock.step (fun s action => Counted (mock.step s action)) ⟨Buffer.new, ∅⟩
      retryActions := by
  have h := conserved mock ⟨Buffer.new, ∅⟩ ⟨rfl, Std.ExtTreeMap.getD_empty⟩ retryActions
  exact ⟨h.1, h.2.mpr (by decide +kernel)⟩

/-- A line is sent and deleted before the call that stored it counts it. -/
def overtakenActions : List Forwarder.Action :=
  .store true "foo" 0 1600000000 :: List.replicate 8 (.check true 1000000) ++
    [.count "mock_r_1600000000_1"]

/-- The domain is empty and no count is to come, and the counter is one. -/
theorem overtaken_miscounted :
    ¬Throughout mock.step (fun s action => Counted (mock.step s action)) ⟨Buffer.new, ∅⟩
        overtakenActions ∧
      (mock.run overtakenActions ⟨Buffer.new, ∅⟩).buffer_count = 1 ∧
      (mock.run overtakenActions ⟨Buffer.new, ∅⟩).counting = [] ∧
      (mock.run overtakenActions ⟨Buffer.new, ∅⟩).discounting = false ∧
      (Ephemeral.domainOf (mock.run overtakenActions ⟨Buffer.new, ∅⟩).db kLogs).keys = [] := by
  decide +kernel

end Osquery.Logger
