import Osquery.Database.Plugin

/-!
# Buffered log forwarders

A forwarder writes every line that is logged under an index of its own to the
logs domain. Its thread reads the lines back, sends the results and the status
lines in one call each, and removes what was sent; if too many lines are
buffered, it purges the oldest ones.

## Implementation notes

Database operations are those of the in-memory plugin: they succeed, and a scan
selects the keys with a prefix in key order. `step` cuts `check` at its scan, every
read, the two sends, every delete, the count after it and the purge, and a call that
logs a line between the store and its count; `counting` and `discounting` say which
counts are still to come. The purge holds the lock of the counter. The outcome of a
send and the limit of the buffer are inputs of each step. A read line carries its
index along, and the fields after `phase` record what happened so far; the source has
neither. Texts are lists of characters and counters are natural numbers.
-/

namespace Osquery.Logger

open Core.BackingStore Database Foundation.Numeral Foundation.Separated

/-- The index of a buffered line and its text. -/
abbrev Line := String × String

/-- Where the thread of the forwarder is in `check`. -/
inductive Phase
  | idle
  | reading (indexes todo : List String) (lines : List Line × List Line)
  | sendingResults (indexes : List String) (results statuses : List Line)
  | clearingResults (indexes todo : List String) (statuses : List Line)
  | sendingStatuses (indexes : List String) (statuses : List Line)
  | clearingStatuses (todo : List String)
  | purging

/-- The members of a forwarder that change, and what it did so far. -/
structure Buffer where
  log_index : ℕ
  buffer_count : ℕ
  counting : List String
  discounting : Bool
  phase : Phase
  logged : List Line
  sent : List (List Line)
  purged : List String
  deleted : List String
  counted : List String

/-- A forwarder that has just been constructed. -/
def Buffer.new : Buffer := ⟨0, 0, [], false, .idle, [], [], [], [], []⟩

structure State extends Buffer where
  db : Database

/-- The members of a forwarder that do not change. -/
structure Forwarder where
  index_name : String
  max_log_lines : ℕ

structure StatusLogLine where
  severity : ℕ
  filename : String
  line : ℕ
  message : String
  calendar_time : String
  time : ℕ
  identifier : String

/-- The value is stored; its count is still to come. -/
def addValue (key value : String) (s : State) : State :=
  { s with
    db := Ephemeral.setValue s.db kLogs key value
    counting := s.counting ++ [key]
    logged := s.logged ++ [(key, value)] }

def countValue (key : String) (s : State) : State :=
  if key ∈ s.counting then
    { s with
      buffer_count := s.buffer_count + 1
      counting := s.counting.erase key
      counted := s.counted ++ [key] }
  else s

def addValueWithCount (key value : String) (s : State) : State :=
  countValue key (addValue key value s)

/-- The value is deleted; the counter still has it. -/
def deleteValue (key : String) (s : State) : State :=
  { s with
    db := Ephemeral.remove s.db kLogs key
    deleted := s.deleted ++ [key] }

def discountValue (s : State) : State :=
  { s with
    buffer_count := if s.buffer_count > 0 then s.buffer_count - 1 else s.buffer_count }

def deleteValueWithCount (key : String) (s : State) : State := discountValue (deleteValue key s)

/-- What was deleted is taken off the counter next. -/
def deleteFirst (key : String) (s : State) : State :=
  { deleteValue key s with discounting := true }

namespace Forwarder

variable (f : Forwarder)

def genIndexPrefix (results : Bool) : String :=
  f.index_name ++ "_" ++ (if results then "r" else "s") ++ "_"

/-- The index with a given time and number. -/
def index (results : Bool) (time number : ℕ) : String :=
  f.genIndexPrefix results ++ toText time ++ "_" ++ toText number

/-- The index of the next line; a time of zero stands for the present time. -/
def genIndex (results : Bool) (time now : ℕ) (s : State) : String × State :=
  let time := if time = 0 then now else time
  let log_index := s.log_index + 1
  (f.index results time log_index, { s with log_index := log_index })

def isIndex (index : String) (results : Bool) : Bool :=
  let target := f.index_name.length + 1
  index.toList[target]? == some (if results then 'r' else 's')

def isResultIndex (index : String) : Bool := f.isIndex index true

def isStatusIndex (index : String) : Bool := f.isIndex index false

def setUp (s : State) : State :=
  let indexes := Ephemeral.scan s.db kLogs f.index_name 0
  { s with buffer_count := indexes.length, counted := s.counted ++ indexes }

/-- The first half of `logLine`. -/
def storeLine (results : Bool) (text : String) (time now : ℕ) (s : State) : State :=
  let (index, s) := f.genIndex results time now s
  addValue index text s

/-- The common part of `logString` and of the loop of `logStatus`. -/
def logLine (results : Bool) (text : String) (time now : ℕ) (s : State) : State :=
  let (index, s) := f.genIndex results time now s
  addValueWithCount index text s

def logString (text : String) (time now : ℕ) (s : State) : State :=
  f.logLine true text time now s

section Status

variable (kVersion : String)
  (write_json : List (String × String) → List (String × String) → Except String String)

/-- The fields of the document of a status line. -/
def statusFields (item : StatusLogLine) : List (String × String) :=
  [("hostIdentifier", item.identifier), ("calendarTime", item.calendar_time),
    ("unixTime", toText item.time), ("severity", toText item.severity),
    ("filename", item.filename), ("line", toText item.line), ("message", item.message),
    ("version", kVersion)]

/-- Every item comes with the time at which its index is generated. A document
that cannot be written ends the call. -/
def logStatus (decorations : List (String × String)) (time : ℕ) :
    List (StatusLogLine × ℕ) → State → Except String Unit × State
  | [], s => (.ok (), s)
  | (item, now) :: log, s =>
      match write_json (statusFields kVersion item) decorations with
      | .error what => (.error what, s)
      | .ok json =>
          logStatus decorations time log
            (f.logLine false (String.ofList json.toList.dropLast) time now s)

end Status

/-- A line read from the store joins the results or the status lines. -/
def readLine (db : Database) (lines : List Line × List Line) (index : String) :
    List Line × List Line :=
  match Ephemeral.get db kLogs index with
  | .error _ => lines
  | .ok value =>
      if f.isResultIndex index then (lines.1 ++ [(index, value)], lines.2)
      else (lines.1, lines.2 ++ [(index, value)])

/-- The part of an index after the prefix, by which lines are ordered. -/
def age (index : String) : String :=
  String.ofList (index.toList.drop (f.genIndexPrefix true).length)

/-- The oldest lines of a list. -/
def oldest (purge_count : ℕ) (indexes : List String) : List String :=
  (indexes.mergeSort fun a b => decide (f.age a ≤ f.age b)).take purge_count

def purge (buffered_log_max : ℕ) (s : State) : State :=
  if s.buffer_count ≤ buffered_log_max then s
  else
    let purge_count := s.buffer_count - buffered_log_max
    let indexes := Ephemeral.scan s.db kLogs (f.genIndexPrefix true) purge_count ++
      Ephemeral.scan s.db kLogs (f.genIndexPrefix false) purge_count
    if indexes.length < purge_count then s
    else
      let indexes := f.oldest purge_count indexes
      indexes.foldl (fun s index => deleteValueWithCount index s)
        { s with purged := s.purged ++ indexes }

/-- The part of `check` that clears what was sent. -/
def clear (isSent : String → Bool) (indexes : List String) (s : State) : State :=
  indexes.foldl (fun s index => if isSent index then deleteValueWithCount index s else s) s

/-- One round of the thread, with the outcomes of its two sends. -/
def check (sentResults sentStatuses : Bool) (buffered_log_max : ℕ) (s : State) : State :=
  let indexes := Ephemeral.scan s.db kLogs f.index_name f.max_log_lines
  let (results, statuses) := indexes.foldl (f.readLine s.db) ([], [])
  let s :=
    if results ≠ [] ∧ sentResults = true then
      clear f.isResultIndex indexes { s with sent := s.sent ++ [results] }
    else s
  let s :=
    if statuses ≠ [] ∧ sentStatuses = true then
      clear f.isStatusIndex indexes { s with sent := s.sent ++ [statuses] }
    else s
  if buffered_log_max > 0 then f.purge buffered_log_max s else s

/-! ### Steps -/

/-- The next step of `check` after the counts. -/
def proceed (sent : Bool) (buffered_log_max : ℕ) (s : State) : State :=
  match s.phase with
  | .idle =>
      let indexes := Ephemeral.scan s.db kLogs f.index_name f.max_log_lines
      { s with phase := .reading indexes indexes ([], []) }
  | .reading indexes [] lines => { s with phase := .sendingResults indexes lines.1 lines.2 }
  | .reading indexes (index :: todo) lines =>
      { s with phase := .reading indexes todo (f.readLine s.db lines index) }
  | .sendingResults indexes results statuses =>
      if results ≠ [] ∧ sent = true then
        { s with
          phase := .clearingResults indexes indexes statuses, sent := s.sent ++ [results] }
      else { s with phase := .sendingStatuses indexes statuses }
  | .clearingResults indexes [] statuses => { s with phase := .sendingStatuses indexes statuses }
  | .clearingResults indexes (index :: todo) statuses =>
      let s := { s with phase := .clearingResults indexes todo statuses }
      if f.isResultIndex index then deleteFirst index s else s
  | .sendingStatuses indexes statuses =>
      if statuses ≠ [] ∧ sent = true then
        { s with phase := .clearingStatuses indexes, sent := s.sent ++ [statuses] }
      else { s with phase := .purging }
  | .clearingStatuses [] => { s with phase := .purging }
  | .clearingStatuses (index :: todo) =>
      let s := { s with phase := .clearingStatuses todo }
      if f.isStatusIndex index then deleteFirst index s else s
  | .purging =>
      let s := { s with phase := .idle }
      if buffered_log_max > 0 then f.purge buffered_log_max s else s

/-- The next step of `check`. -/
def advance (sent : Bool) (buffered_log_max : ℕ) (s : State) : State :=
  if s.discounting then { discountValue s with discounting := false }
  else f.proceed sent buffered_log_max s

/-- What can happen next: half a call of another thread, or a step of `check`. -/
inductive Action
  | setUp
  | store (results : Bool) (text : String) (time now : ℕ)
  | count (key : String)
  | check (sent : Bool) (buffered_log_max : ℕ)

def step (s : State) : Action → State
  | .setUp => f.setUp s
  | .store results text time now => f.storeLine results text time now s
  | .count key => countValue key s
  | .check sent buffered_log_max => f.advance sent buffered_log_max s

def run (actions : List Action) (s : State) : State := actions.foldl f.step s

@[simp] theorem run_nil (s : State) : f.run [] s = s := rfl

@[simp] theorem run_cons (a : Action) (actions : List Action) (s : State) :
    f.run (a :: actions) s = f.run actions (f.step s a) := rfl

/-- The indexes whose delete is still to come. -/
def pending : Phase → List String
  | .clearingResults _ todo _ => todo.filter f.isResultIndex
  | .clearingStatuses todo => todo.filter f.isStatusIndex
  | _ => []

/-- What a step of `check` can do: go on, with or without a send, delete the next index, or
purge. -/
theorem proceed_cases (sent : Bool) (buffered_log_max : ℕ) (s : State) :
    (∃ phase more,
      f.proceed sent buffered_log_max s = { s with phase := phase, sent := s.sent ++ more }) ∨
    (∃ phase key, f.pending s.phase = key :: f.pending phase ∧
      f.proceed sent buffered_log_max s = deleteFirst key { s with phase := phase }) ∨
    (f.pending s.phase = [] ∧
      f.proceed sent buffered_log_max s = f.purge buffered_log_max { s with phase := .idle }) := by
  have hgo : ∀ phase, ∃ phase' more, ({ s with phase := phase } : State) =
      { s with phase := phase', sent := s.sent ++ more } :=
    fun phase => ⟨phase, [], by rw [List.append_nil]⟩
  cases hphase : s.phase <;> simp only [proceed, hphase]
  case idle => exact .inl (hgo _)
  case reading indexes todo lines => cases todo <;> exact .inl (hgo _)
  case sendingResults indexes results statuses =>
    split
    · exact .inl ⟨_, [results], rfl⟩
    · exact .inl (hgo _)
  case clearingResults indexes todo statuses =>
    cases todo with
    | nil => exact .inl (hgo _)
    | cons index todo =>
        simp only
        split
        · next h => exact .inr (.inl ⟨_, index, by rw [pending, List.filter_cons, if_pos h, pending], rfl⟩)
        · exact .inl (hgo _)
  case sendingStatuses indexes statuses =>
    split
    · exact .inl ⟨_, [statuses], rfl⟩
    · exact .inl (hgo _)
  case clearingStatuses todo =>
    cases todo with
    | nil => exact .inl (hgo _)
    | cons index todo =>
        simp only
        split
        · next h => exact .inr (.inl ⟨_, index, by rw [pending, List.filter_cons, if_pos h, pending], rfl⟩)
        · exact .inl (hgo _)
  case purging =>
    split
    · exact .inr (.inr ⟨rfl, rfl⟩)
    · exact .inl (hgo _)

/-! ### The steps cover the programs -/

theorem logLine_eq_run (results : Bool) (text : String) (time now : ℕ) (s : State) :
    f.logLine results text time now s =
      f.run [.store results text time now, .count (f.genIndex results time now s).1] s := rfl

/-- Every call of `logStatus` is a sequence of lines that are stored and counted. -/
theorem logStatus_eq_run (kVersion : String)
    (write_json : List (String × String) → List (String × String) → Except String String)
    (decorations : List (String × String)) (time : ℕ) (log : List (StatusLogLine × ℕ))
    (s : State) :
    ∃ lines : List (String × ℕ × String),
      (f.logStatus kVersion write_json decorations time log s).2 =
        f.run (lines.flatMap fun line =>
          [.store false line.1 time line.2.1, .count line.2.2]) s := by
  induction log generalizing s with
  | nil => exact ⟨[], rfl⟩
  | cons entry log ih =>
      obtain ⟨item, now⟩ := entry
      rw [logStatus]
      cases write_json (statusFields kVersion item) decorations with
      | error what => exact ⟨[], rfl⟩
      | ok json =>
          have hline := f.logLine_eq_run false (String.ofList json.toList.dropLast) time now s
          obtain ⟨lines, hlines⟩ :=
            ih (f.logLine false (String.ofList json.toList.dropLast) time now s)
          refine ⟨(String.ofList json.toList.dropLast, now, (f.genIndex false time now s).1) :: lines,
            hlines.trans ?_⟩
          rw [hline]
          rfl

section Check

open Relation (ReflTransGen)

/-- One step of `check`, whatever its inputs. -/
def Advances (s s' : State) : Prop := ∃ sent buffered_log_max, f.advance sent buffered_log_max s = s'

theorem advances (sent : Bool) (buffered_log_max : ℕ) (s : State) :
    ReflTransGen f.Advances s (f.advance sent buffered_log_max s) :=
  ReflTransGen.single ⟨sent, buffered_log_max, rfl⟩

theorem clear_phase (isSent : String → Bool) (indexes : List String) (phase : Phase) (s : State) :
    clear isSent indexes { s with phase := phase } =
      { clear isSent indexes s with phase := phase } := by
  induction indexes generalizing s with
  | nil => rfl
  | cons index rest ih =>
      cases h : isSent index with
      | false =>
          simp only [clear, List.foldl_cons, h] at ih ⊢
          exact ih s
      | true =>
          simp only [clear, List.foldl_cons, h] at ih ⊢
          exact ih (deleteValueWithCount index s)

theorem clear_discounting (isSent : String → Bool) (indexes : List String) (s : State) :
    (clear isSent indexes s).discounting = s.discounting := by
  refine List.foldlRecOn (motive := fun s' : State => s'.discounting = s.discounting)
    indexes _ rfl fun s' h index _ => ?_
  split
  · exact h
  · exact h

theorem advance_of_not_discounting {s : State} (h : s.discounting = false) (sent : Bool)
    (buffered_log_max : ℕ) : f.advance sent buffered_log_max s = f.proceed sent buffered_log_max s :=
  if_neg (Bool.not_eq_true _ ▸ h)

theorem proceeds (phase : Phase) {s : State} (h : s.discounting = false) (sent : Bool)
    (buffered_log_max : ℕ) :
    ReflTransGen f.Advances { s with phase := phase }
      (f.proceed sent buffered_log_max { s with phase := phase }) :=
  f.advance_of_not_discounting (s := { s with phase := phase }) h sent buffered_log_max ▸
    f.advances sent buffered_log_max { s with phase := phase }

/-- A delete and the count after it. -/
theorem steps_delete (index : String) {s : State} (h : s.discounting = false) :
    ReflTransGen f.Advances (deleteFirst index s) (deleteValueWithCount index s) := by
  have hstep := f.advances false 0 (deleteFirst index s)
  have hcount : f.advance false 0 (deleteFirst index s) = deleteValueWithCount index s := by
    obtain ⟨⟨log_index, buffer_count, counting, discounting, phase, logged⟩, db⟩ := s
    obtain rfl : discounting = false := h
    rfl
  rwa [hcount] at hstep

theorem steps_reading (indexes todo : List String) (lines : List Line × List Line) {s : State}
    (h : s.discounting = false) :
    ReflTransGen f.Advances { s with phase := .reading indexes todo lines }
      { s with
        phase := .sendingResults indexes (todo.foldl (f.readLine s.db) lines).1
          (todo.foldl (f.readLine s.db) lines).2 } := by
  induction todo generalizing lines with
  | nil => exact f.proceeds (.reading indexes [] lines) h false 0
  | cons index todo ih =>
      exact (f.proceeds (.reading indexes (index :: todo) lines) h false 0).trans
        (ih (f.readLine s.db lines index))

/-- Clearing what was sent, in the phases that take one index after the other. -/
theorem steps_clearing (isSent : String → Bool) (phase : List String → Phase)
    (hproceed : ∀ index todo (s : State),
      f.proceed false 0 { s with phase := phase (index :: todo) } =
        if isSent index then deleteFirst index { s with phase := phase todo }
        else { s with phase := phase todo }) (todo : List String) {s : State}
    (h : s.discounting = false) :
    ReflTransGen f.Advances { s with phase := phase todo }
      { clear isSent todo s with phase := phase [] } := by
  induction todo generalizing s with
  | nil => exact ReflTransGen.refl
  | cons index todo ih =>
      have hstep := f.proceeds (phase (index :: todo)) h false 0
      rw [hproceed] at hstep
      cases hsent : isSent index with
      | false =>
          simp only [clear, List.foldl_cons, hsent] at hstep ih ⊢
          exact hstep.trans (ih h)
      | true =>
          simp only [clear, List.foldl_cons, hsent] at hstep ih ⊢
          have hdelete := f.steps_delete index (s := { s with phase := phase todo }) h
          exact (hstep.trans hdelete).trans (ih (s := deleteValueWithCount index s) h)

/-- A send of lines with what it clears, in the phases that send, clear, and go on. -/
theorem steps_send (sent : Bool) (isSent : String → Bool) (indexes : List String)
    (lines : List Line) (sending next : Phase) (clearing : List String → Phase)
    (hsend : ∀ s : State, f.proceed sent 0 { s with phase := sending } =
      if lines ≠ [] ∧ sent = true then
        { s with phase := clearing indexes, sent := s.sent ++ [lines] }
      else { s with phase := next })
    (hclear : ∀ index todo (s : State),
      f.proceed false 0 { s with phase := clearing (index :: todo) } =
        if isSent index then deleteFirst index { s with phase := clearing todo }
        else { s with phase := clearing todo })
    (hnext : ∀ s : State, f.proceed false 0 { s with phase := clearing [] } =
      { s with phase := next }) {s : State} (h : s.discounting = false) :
    ReflTransGen f.Advances { s with phase := sending }
      { (if lines ≠ [] ∧ sent = true then
          clear isSent indexes { s with sent := s.sent ++ [lines] }
        else s) with phase := next } := by
  have hstep := f.proceeds sending h sent 0
  rw [hsend] at hstep
  split
  · rename_i hsent
    rw [if_pos hsent] at hstep
    have hcleared := f.steps_clearing isSent clearing hclear indexes
      (s := { s with sent := s.sent ++ [lines] }) h
    have hlast := f.proceeds (clearing []) ((clear_discounting isSent indexes
      { s with sent := s.sent ++ [lines] }).trans h) false 0
    rw [hnext] at hlast
    exact (hstep.trans hcleared).trans hlast
  · rename_i hsent
    rw [if_neg hsent] at hstep
    exact hstep

theorem clear_phase_eq (isSent : String → Bool) (indexes : List String) (s : State) :
    (clear isSent indexes s).phase = s.phase :=
  congrArg (fun s => s.phase) (clear_phase isSent indexes s.phase s)

/-- What is cleared or kept, where the counter is even with the deletes. -/
theorem discounting_ite {c : Prop} [Decidable c] (isSent : String → Bool) (indexes : List String)
    {s : State} (s' : State) (h : s.discounting = false) (h' : s'.discounting = false) :
    (if c then clear isSent indexes s' else s).discounting = false := by
  split
  · exact (clear_discounting isSent indexes s').trans h'
  · exact h

/-- The send of the status lines and the purge. -/
theorem steps_endCheck (sent : Bool) (buffered_log_max : ℕ) (indexes : List String)
    (statuses : List Line) {s : State} (h : s.discounting = false) :
    ReflTransGen f.Advances { s with phase := .sendingStatuses indexes statuses }
      (f.proceed false buffered_log_max { (if statuses ≠ [] ∧ sent = true then
          clear f.isStatusIndex indexes { s with sent := s.sent ++ [statuses] }
        else s) with phase := .purging }) :=
  (f.steps_send sent f.isStatusIndex indexes statuses (.sendingStatuses indexes statuses) .purging
    .clearingStatuses (fun _ => rfl) (fun _ _ _ => rfl) (fun _ => rfl) h).trans
    (f.proceeds .purging (discounting_ite f.isStatusIndex indexes
      { s with sent := s.sent ++ [statuses] } h h) false buffered_log_max)

/-- The whole check is a sequence of steps. -/
theorem steps_check (sentResults sentStatuses : Bool) (buffered_log_max : ℕ) (s : State)
    (h : s.phase = .idle) (hcounted : s.discounting = false) :
    ReflTransGen f.Advances s (f.check sentResults sentStatuses buffered_log_max s) := by
  have hscan := f.advances false 0 s
  rw [f.advance_of_not_discounting hcounted] at hscan
  simp only [proceed, h] at hscan
  have hread := hscan.trans (f.steps_reading _ _ _ hcounted)
  have hresults := hread.trans (f.steps_send sentResults f.isResultIndex _ _
    (.sendingResults _ _ _) (.sendingStatuses _ _) (fun todo => .clearingResults _ todo _)
    (fun _ => rfl) (fun _ _ _ => rfl) (fun _ => rfl) hcounted)
  have hmiddle := fun indexes results =>
    discounting_ite (c := results ≠ [] ∧ sentResults = true) f.isResultIndex indexes
      { s with sent := s.sent ++ [results] } hcounted hcounted
  have hpurge := hresults.trans
    (f.steps_endCheck sentStatuses buffered_log_max _ _ (hmiddle _ _))
  simp only [proceed] at hpurge
  have hphase : ∀ {c : Prop} [Decidable c] {isSent : String → Bool} {indexes : List String}
      {s s' : State}, s.phase = .idle → s'.phase = .idle →
        (if c then clear isSent indexes s' else s).phase = .idle := by
    intro c _ isSent indexes s s' hs hs'
    split
    · exact (clear_phase_eq isSent indexes s').trans hs'
    · exact hs
  have hidle : ∀ s : State, s.phase = .idle → { s with phase := .idle } = s := by
    rintro ⟨⟨log_index, buffer_count, counting, discounting, phase, logged⟩, db⟩ hs
    obtain rfl : phase = .idle := hs
    rfl
  rw [hidle] at hpurge
  · exact hpurge
  · apply hphase
    · exact hphase h h
    · exact hphase h h

end Check

end Forwarder

/-! ### Indexes -/

section Indexes

variable (f : Forwarder)

theorem index_toList (results : Bool) (time number : ℕ) :
    (f.index results time number).toList =
      f.index_name.toList ++ '_' :: (if results then 'r' else 's') :: '_' ::
        ((toText time).toList ++ '_' :: (toText number).toList) := by
  cases results <;> simp [Forwarder.index, Forwarder.genIndexPrefix]

theorem underscore_not_mem_toText (n : ℕ) : '_' ∉ (toText n).toList :=
  fun h => absurd (isDigit_of_mem_toText h) (by decide)

/-- Different numbers give different indexes. -/
theorem number_of_index {results results' : Bool} {time time' number number' : ℕ}
    (h : f.index results time number = f.index results' time' number') : number = number' := by
  have hlist : ∀ results time number, (f.index results time number).toList =
      (f.genIndexPrefix results ++ toText time).toList ++ '_' :: (toText number).toList := by
    intro results time number
    simp [Forwarder.index]
  have hchars := congrArg String.toList h
  rw [hlist, hlist] at hchars
  have htext := (append_cons_inj_last (underscore_not_mem_toText _)
    (underscore_not_mem_toText _) hchars).2
  exact toText_inj.mp (String.toList_inj.mp htext)

theorem isIndex_index (results kind : Bool) (time number : ℕ) :
    f.isIndex (f.index results time number) kind = (results == kind) := by
  have hchar : (f.index results time number).toList[f.index_name.length + 1]? =
      some (if results then 'r' else 's') := by
    rw [index_toList, ← String.length_toList, List.getElem?_append_right (Nat.le_succ _)]
    simp
  rw [Forwarder.isIndex, hchar]
  cases results <;> cases kind <;> decide

/-- No key has the prefix of a result and that of a status line. -/
theorem disjoint_prefixes {key : String} (hresult : (f.genIndexPrefix true).toList <+: key.toList)
    (hstatus : (f.genIndexPrefix false).toList <+: key.toList) : False := by
  have hlength : (f.genIndexPrefix true).toList.length = (f.genIndexPrefix false).toList.length := by
    simp [Forwarder.genIndexPrefix]
  have heq := (List.prefix_of_prefix_length_le hresult hstatus hlength.le).eq_of_length hlength
  simp [Forwarder.genIndexPrefix] at heq

theorem name_prefix_index (results : Bool) (time number : ℕ) :
    f.index_name.toList <+: (f.index results time number).toList := by
  rw [index_toList]
  exact List.prefix_append _ _

end Indexes

end Osquery.Logger
