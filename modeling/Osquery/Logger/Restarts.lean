import Osquery.Logger.Buffered

/-!
# Indexes of a forwarder that is restarted

The lines survive the process that logged them, and the number of the next line
does not. Within one process every index is new. After a restart the numbers begin
again, and an index is used for a second time if a line of the same kind is logged
with the same number in the same second; if the first line was not sent yet, it is
overwritten.

## Implementation notes

A restart can come between any two steps of the forwarder. What was logged as which
number by which process and which stored lines were sent is recorded beside the
state; the source has neither.
-/

namespace Osquery.Logger

open Core.BackingStore Database Foundation.Numeral Foundation.Separated

/-- The kind, the time and the number that a line is logged with. -/
structure Entry where
  results : Bool
  time : ℕ
  number : ℕ

def Entry.index (f : Forwarder) (e : Entry) : String := f.index e.results e.time e.number

/-- A forwarder over all its processes: the lines of the processes that ended, those
of the present one, and the stored lines that were sent. -/
structure History extends State where
  earlier : List Entry
  present : List Entry
  acknowledged : List Line

/-- Nothing happened yet. -/
def History.start (db : Database) : History := ⟨⟨Buffer.new, db⟩, [], [], []⟩

inductive Event
  | act (action : Forwarder.Action)
  | restart

/-- The time of the clock, for an event that reads it. -/
def Event.now? : Event → Option ℕ
  | .act (.store _ _ _ now) => some now
  | _ => none

/-- The clock never goes back. -/
def Monotone (events : List Event) : Prop := (events.filterMap Event.now?).Pairwise (· ≤ ·)

/-- The line is stored and was not sent. -/
def History.Unsent (s : History) (line : Line) : Prop :=
  lookup s.db kLogs line.1 = some line.2 ∧ line ∉ s.acknowledged

/-- What the next line is logged as. -/
def State.entry (s : State) (results : Bool) (time now : ℕ) : Entry :=
  ⟨results, if time = 0 then now else time, s.log_index + 1⟩

/-- A new process begins to number from zero, with the store of the old one. -/
def History.restart (s : History) : History :=
  { s with
    log_index := 0
    buffer_count := 0
    counting := []
    discounting := false
    phase := .idle
    earlier := s.earlier ++ s.present
    present := [] }

namespace Forwarder

variable (f : Forwarder)

def act (s : History) : Action → History
  | .store results text time now =>
      let e := s.entry results time now
      { s with
        toState := f.storeLine results text time now s.toState
        present := s.present ++ [e]
        acknowledged := s.acknowledged.filter fun line => line.1 ≠ e.index f }
  | action =>
      let s' := f.step s.toState action
      { s with
        toState := s'
        acknowledged := s.acknowledged ++ (s'.sent.drop s.sent.length).flatten }

def happen (s : History) : Event → History
  | .act action => f.act s action
  | .restart => s.restart

def live (events : List Event) (s : History) : History := events.foldl f.happen s

/-- Every line is logged under an index that holds no unsent line. -/
def NeverOverwrites (s : History) (events : List Event) : Prop :=
  ∀ before results text time now after,
    events = before ++ .act (.store results text time now) :: after →
      ∀ held : Line, held.1 = (f.genIndex results time now (f.live before s).toState).1 →
        ¬(f.live before s).Unsent held

/-- No line is logged as what an earlier process logged a line as, while that line
is still unsent. -/
def NeverRepeats (s : History) (events : List Event) : Prop :=
  ∀ before results text time now after,
    events = before ++ .act (.store results text time now) :: after →
      ∀ e ∈ (f.live before s).earlier, e = (f.live before s).entry results time now →
        ∀ held, ¬(f.live before s).Unsent (e.index f, held)

theorem genIndex_eq (results : Bool) (time now : ℕ) (s : State) :
    (f.genIndex results time now s).1 = (s.entry results time now).index f := rfl

end Forwarder

/-- The index of a line tells its kind, its time and its number. -/
theorem entry_of_index (f : Forwarder) {e e' : Entry} (h : e.index f = e'.index f) : e = e' := by
  obtain ⟨results, time, number⟩ := e
  obtain ⟨results', time', number'⟩ := e'
  have hchars := congrArg String.toList h
  simp only [Entry.index, index_toList] at hchars
  have htail := List.append_cancel_left hchars
  simp only [List.cons.injEq, true_and] at htail
  obtain ⟨hkind, htail⟩ := htail
  obtain ⟨htime, hnumber⟩ := append_cons_inj (underscore_not_mem_toText _)
    (underscore_not_mem_toText _) htail
  have hresults : results = results' := by
    cases results <;> cases results' <;> simp_all
  rw [hresults, toText_inj.mp (String.toList_inj.mp htime),
    toText_inj.mp (String.toList_inj.mp hnumber)]

/-! ### The steps that log nothing -/

/-- Nothing comes into the logs domain, and no number is taken. -/
structure Shrinks (s s' : State) : Prop where
  log_index : s'.log_index = s.log_index
  stored : ∀ key, (lookup s'.db kLogs key).isSome = true → (lookup s.db kLogs key).isSome = true

namespace Shrinks

variable {f : Forwarder} {s s' s'' : State}

theorem refl (s : State) : Shrinks s s := ⟨rfl, fun _ h => h⟩

theorem trans (h : Shrinks s s') (h' : Shrinks s' s'') : Shrinks s s'' :=
  ⟨h'.log_index.trans h.log_index, fun key hkey => h.stored key (h'.stored key hkey)⟩

/-- The counts touch neither the store nor the numbers. -/
theorem discount (h : Shrinks s s') : Shrinks s (discountValue s') := ⟨h.log_index, h.stored⟩

theorem count (key : String) (s : State) : Shrinks s (countValue key s) := by
  rw [countValue]
  split
  · exact ⟨rfl, fun _ h => h⟩
  · exact refl s

theorem delete (key : String) (s : State) : Shrinks s (deleteValue key s) := by
  constructor
  · rfl
  · intro a ha
    change (lookup (Ephemeral.remove s.db kLogs key) kLogs a).isSome = true at ha
    rw [lookup_remove] at ha
    split at ha
    · cases ha
    · exact ha

theorem deleteAll (keys : List String) (s : State) :
    Shrinks s (keys.foldl (fun s key => deleteValueWithCount key s) s) := by
  induction keys generalizing s with
  | nil => exact refl s
  | cons key rest ih => exact (delete key s).discount.trans (ih _)

theorem purge (buffered_log_max : ℕ) (s : State) : Shrinks s (f.purge buffered_log_max s) := by
  simp only [Forwarder.purge]
  split
  · exact refl s
  · split
    · exact refl s
    · have hpurged (purged : List String) : Shrinks s { s with purged := purged } :=
        ⟨rfl, fun _ h => h⟩
      exact (hpurged _).trans (deleteAll _ _)

/-- A change of the phase touches nothing else. -/
theorem setPhase (h : Shrinks s s') (phase : Phase) : Shrinks s { s' with phase := phase } :=
  ⟨h.log_index, h.stored⟩

theorem proceed (sent : Bool) (buffered_log_max : ℕ) (s : State) :
    Shrinks s (f.proceed sent buffered_log_max s) := by
  rcases f.proceed_cases sent buffered_log_max s with
    ⟨phase, more, hstep⟩ | ⟨phase, key, -, hstep⟩ | ⟨-, hstep⟩
  all_goals rw [hstep]
  · exact ⟨rfl, fun _ h => h⟩
  · exact ⟨rfl, (delete key { s with phase := phase }).stored⟩
  · exact ((refl s).setPhase .idle).trans (purge _ _)

theorem advance (sent : Bool) (buffered_log_max : ℕ) (s : State) :
    Shrinks s (f.advance sent buffered_log_max s) := by
  rw [Forwarder.advance]
  split
  · exact ⟨rfl, fun _ h => h⟩
  · exact proceed sent buffered_log_max s

theorem setUp (s : State) : Shrinks s (f.setUp s) := ⟨rfl, fun _ h => h⟩

end Shrinks

/-! ### What is stored was logged -/

/-- Every stored line was logged by this process or an earlier one, and this process
counts its lines. -/
structure Recorded (f : Forwarder) (s : History) : Prop where
  stored : ∀ key, (lookup s.db kLogs key).isSome = true →
    ∃ e ∈ s.earlier ++ s.present, key = e.index f
  numbered : ∀ e ∈ s.present, e.number ≤ s.log_index

namespace Recorded

variable {f : Forwarder} {s : History}

theorem start {db : Database} (h : Ephemeral.domainOf db kLogs = ∅) :
    Recorded f (History.start db) := by
  constructor
  · intro key hkey
    change (lookup db kLogs key).isSome = true at hkey
    rw [lookup, h] at hkey
    simp at hkey
  · exact fun e he => absurd he List.not_mem_nil

theorem shrink (h : Recorded f s) {s' : State} (hs : Shrinks s.toState s')
    (acknowledged : List Line) :
    Recorded f { s with toState := s', acknowledged := acknowledged } := by
  constructor
  · intro key hkey
    exact h.stored key (hs.stored key hkey)
  · intro e he
    exact (h.numbered e he).trans hs.log_index.ge

theorem restart (h : Recorded f s) : Recorded f (s.restart) := by
  constructor
  · intro key hkey
    obtain ⟨e, he, heq⟩ := h.stored key hkey
    exact ⟨e, List.mem_append_left _ he, heq⟩
  · exact fun e he => absurd he List.not_mem_nil

theorem storeLine (h : Recorded f s) (results : Bool) (text : String) (time now : ℕ) :
    Recorded f (f.act s (.store results text time now)) := by
  set e := s.entry results time now with he
  constructor
  · intro key hkey
    change (lookup (Ephemeral.setValue s.db kLogs (e.index f) text) kLogs key).isSome = true at hkey
    rw [lookup_setValue] at hkey
    split at hkey
    · rename_i heq
      refine ⟨e, ?_, heq.2.symm⟩
      apply List.mem_append_right
      apply List.mem_append_right
      exact List.mem_singleton_self e
    · obtain ⟨a, ha, hindex⟩ := h.stored key hkey
      refine ⟨a, ?_, hindex⟩
      change a ∈ s.earlier ++ (s.present ++ [e])
      rw [← List.append_assoc]
      exact List.mem_append_left _ ha
  · intro a ha
    change a.number ≤ s.log_index + 1
    rcases List.mem_append.mp ha with ha | ha
    · exact Nat.le_succ_of_le (h.numbered a ha)
    · rw [List.mem_singleton.mp ha]
      exact le_rfl

theorem happen (h : Recorded f s) (event : Event) : Recorded f (f.happen s event) := by
  cases event with
  | restart => exact h.restart
  | act action =>
      cases action with
      | setUp => exact h.shrink (Shrinks.setUp s.toState) _
      | store results text time now => exact h.storeLine results text time now
      | count key => exact h.shrink (Shrinks.count key s.toState) _
      | check sent buffered_log_max => exact h.shrink (Shrinks.advance _ _ s.toState) _

theorem live (h : Recorded f s) (events : List Event) : Recorded f (f.live events s) := by
  induction events generalizing s with
  | nil => exact h
  | cons event rest ih => exact ih (h.happen event)

/-- A stored line under the index of the next line was logged by an earlier process
as the same. -/
theorem mem_earlier (h : Recorded f s) {results : Bool} {time now : ℕ}
    (hkey : (lookup s.db kLogs ((s.entry results time now).index f)).isSome = true) :
    s.entry results time now ∈ s.earlier := by
  obtain ⟨e, he, heq⟩ := h.stored _ hkey
  have hentry : s.entry results time now = e := entry_of_index f heq
  rcases List.mem_append.mp he with he | he
  · exact hentry ▸ he
  · have hle := h.numbered e he
    have hnumber : e.number = s.log_index + 1 := hentry ▸ rfl
    omega

/-- An index holds an unsent line exactly when that line was logged by an earlier
process as what is logged now. -/
theorem unsent_iff (h : Recorded f s) (results : Bool) (time now : ℕ) :
    (∃ held : Line, held.1 = (f.genIndex results time now s.toState).1 ∧ s.Unsent held) ↔
      ∃ e ∈ s.earlier, e = s.entry results time now ∧ ∃ text, s.Unsent (e.index f, text) := by
  rw [Forwarder.genIndex_eq]
  constructor
  · rintro ⟨⟨key, text⟩, hkey, hunsent⟩
    obtain rfl : key = (s.entry results time now).index f := hkey
    have hstored := Option.isSome_iff_exists.mpr ⟨text, hunsent.1⟩
    exact ⟨_, h.mem_earlier hstored, rfl, text, hunsent⟩
  · rintro ⟨e, -, rfl, text, hunsent⟩
    exact ⟨_, rfl, hunsent⟩

theorem iff_step (h : Recorded f s) (results : Bool) (time now : ℕ) :
    (∀ held : Line, held.1 = (f.genIndex results time now s.toState).1 → ¬s.Unsent held) ↔
      ∀ e ∈ s.earlier, e = s.entry results time now → ∀ text, ¬s.Unsent (e.index f, text) := by
  have hnot := not_congr (h.unsent_iff results time now)
  push Not at hnot
  exact hnot

end Recorded

/-! ### Clocks that moved on -/

/-- The time that an event logs a line with. -/
def Event.time? : Event → Option ℕ
  | .act (.store _ _ time now) => some (if time = 0 then now else time)
  | _ => none

/-- The lines of earlier processes were logged before some restart. -/
theorem restart_of_mem_earlier (f : Forwarder) (db : Database) (events : List Event) :
    (∀ e ∈ (f.live events (History.start db)).earlier, ∃ before after,
      events = before ++ .restart :: after ∧ e.time ∈ before.filterMap Event.time?) ∧
    ∀ e ∈ (f.live events (History.start db)).present, e.time ∈ events.filterMap Event.time? := by
  induction events using List.reverseRecOn with
  | nil => exact ⟨fun e he => absurd he List.not_mem_nil, fun e he => absurd he List.not_mem_nil⟩
  | append_singleton events event ih =>
      obtain ⟨hearlier, hpresent⟩ := ih
      have hlive : f.live (events ++ [event]) (History.start db) =
          f.happen (f.live events (History.start db)) event := by
        simp [Forwarder.live]
      have hkeep : ∀ e ∈ (f.live events (History.start db)).earlier, ∃ before after,
          events ++ [event] = before ++ .restart :: after ∧
            e.time ∈ before.filterMap Event.time? := by
        intro e he
        obtain ⟨before, after, hevents, htime⟩ := hearlier e he
        exact ⟨before, after ++ [event], by simp [hevents], htime⟩
      have hstay : ∀ e ∈ (f.live events (History.start db)).present,
          e.time ∈ (events ++ [event]).filterMap Event.time? := by
        intro e he
        rw [List.filterMap_append]
        exact List.mem_append_left _ (hpresent e he)
      rw [hlive]
      cases event with
      | restart =>
          constructor
          · intro e he
            rcases List.mem_append.mp he with he | he
            · exact hkeep e he
            · exact ⟨events, [], rfl, hpresent e he⟩
          · exact fun e he => absurd he List.not_mem_nil
      | act action =>
          cases action with
          | setUp => exact ⟨hkeep, hstay⟩
          | check sent buffered_log_max => exact ⟨hkeep, hstay⟩
          | count key => exact ⟨hkeep, hstay⟩
          | store results text time now =>
              refine ⟨hkeep, ?_⟩
              intro e he
              rcases List.mem_append.mp he with he | he
              · exact hstay e he
              · rw [List.mem_singleton.mp he, List.filterMap_append]
                exact List.mem_append_right _ List.mem_cons_self

/-- Whoever waits for the next second after a restart repeats nothing. -/
theorem neverRepeats_of_later (f : Forwarder) (db : Database) {events : List Event}
    (h : ∀ before after, events = before ++ .restart :: after →
      ∀ t ∈ before.filterMap Event.time?, ∀ t' ∈ after.filterMap Event.time?, t < t') :
    f.NeverRepeats (History.start db) events := by
  intro before results text time now after hevents e he heq
  obtain ⟨first, rest, hbefore, htime⟩ := (restart_of_mem_earlier f db before).1 e he
  have hsplit : events =
      first ++ .restart :: (rest ++ .act (.store results text time now) :: after) := by
    rw [hevents, hbefore]
    simp
  have hlt := h _ _ hsplit _ htime (if time = 0 then now else time) (by simp [Event.time?])
  rw [heq] at hlt
  exact absurd hlt (lt_irrefl _)

/-- No unsent line is overwritten exactly when no line is logged as what an earlier
process logged a line as that is still unsent. -/
theorem neverOverwrites_iff (f : Forwarder) {db : Database} (h : Ephemeral.domainOf db kLogs = ∅)
    (events : List Event) :
    f.NeverOverwrites (History.start db) events ↔ f.NeverRepeats (History.start db) events := by
  have hstep (before : List Event) := ((Recorded.start (f := f) h).live before).iff_step
  constructor
  · intro hnever before results text time now after hevents
    exact (hstep before results time now).mp (hnever before results text time now after hevents)
  · intro hnever before results text time now after hevents
    exact (hstep before results time now).mpr (hnever before results text time now after hevents)

/-- A forwarder as a logger constructs it. -/
def tlsForwarder : Forwarder := ⟨"tls", 1024⟩

/-- A line before a restart, and one after it. -/
def lineAfterRestart (now now' : ℕ) : List Event :=
  [.act (.store true "first" 0 now), .restart, .act .setUp, .act (.store true "second" 0 now')]

theorem neverOverwrites_later :
    tlsForwarder.NeverOverwrites (History.start ∅) (lineAfterRestart 100 101) := by
  apply (neverOverwrites_iff tlsForwarder (by simp [Ephemeral.domainOf]) _).mpr
  apply neverRepeats_of_later
  intro before after hevents t ht t' ht'
  rw [lineAfterRestart] at hevents
  rcases before with _ | ⟨a, _ | ⟨b, _ | ⟨c, _ | ⟨d, rest⟩⟩⟩⟩ <;> simp at hevents
  obtain ⟨rfl, rfl⟩ := hevents
  simp [Event.time?] at ht ht'
  omega

/-- In the same second the line after the restart overwrites the one before it. -/
theorem line_overwritten :
    Monotone (lineAfterRestart 100 100) ∧
      ¬tlsForwarder.NeverOverwrites (History.start ∅) (lineAfterRestart 100 100) := by
  constructor
  · unfold Monotone
    decide
  · intro hnever
    apply hnever [.act (.store true "first" 0 100), .restart, .act .setUp] true "second" 0 100
      [] rfl (tlsForwarder.index true 100 1, "first") rfl
    constructor
    · change lookup (Ephemeral.setValue ∅ kLogs (tlsForwarder.index true 100 1) "first") kLogs _ = _
      simp
    · exact List.not_mem_nil

end Osquery.Logger
