import Osquery.Config.Pack
import Osquery.Foundation.Simulation
import Mathlib.Algebra.BigOperators.Group.List.Basic
import Mathlib.Algebra.Order.Group.Multiset
import Mathlib.Data.List.ModifyLast
import Mathlib.Tactic.Abel

/-!
# Status lines

Status lines are buffered by a log sink. A relay makes a sender, which takes all of the buffered
lines as one request, reads which loggers are active and calls those that are enabled one after
another. Senders of several relays run at the same time. A logger gets every line exactly once
as long as no request passes it by: it is active once when the sender of a request with lines
reads the active loggers, and enabled when the sender gets to it.

## Implementation notes

Senders are numbered in the order in which they are made; a synchronous relay is a sender that
runs on the thread of its caller. Who relays and when is left open. Each step holds the locks
that the source holds. A call of a logger reaches its plugin, here or in an extension. The lines
that were sent and those that a plugin got are kept beside the state of the sink.
-/

namespace Osquery.Logger.StatusLogs

open Foundation.JsonText Foundation.Simulation Core.Rows Core.Conversions Config

/-! ### Requests -/

/-- A line, with the number of its severity. -/
structure StatusLogLine where
  severity : Int32
  filename : String
  line : UInt64
  message : String
  calendar_time : String
  time : UInt64
  identifier : String
deriving DecidableEq

def statusMembers (i : StatusLogLine) : Json :=
  .obj [("s", .int i.severity.toInt), ("f", .str i.filename), ("i", .int i.line.toNat),
    ("m", .str i.message), ("h", .str i.identifier), ("c", .str i.calendar_time),
    ("u", .int i.time.toNat)]

def serializeIntermediateLog (json : JsonLibrary) (log : List StatusLogLine) (request : Row) :
    Row :=
  request.insert "log" (json.write (.arr (log.map statusMembers)))

def getInt : Json → Int32
  | .int n => Int32.ofInt n
  | _ => 0

def getUint64 : Json → UInt64
  | .int n => UInt64.ofNat n.toNat
  | _ => 0

def readStatusLine (line : Json) : StatusLogLine :=
  let field := fun name => (member? name line).getD .null
  { severity := getInt (field "s")
    filename := getString (field "f")
    line := getUint64 (field "i")
    message := getString (field "m")
    calendar_time := getString (field "c")
    time := getUint64 (field "u")
    identifier := getString (field "h") }

def deserializeIntermediateLog (json : JsonLibrary) (request : Row) : List StatusLogLine :=
  match request["log"]? with
  | none => []
  | some log =>
      match json.parse (cstr log) with
      | none => []
      | some doc => (getArray doc).map readStatusLine

/-- What a request makes a logger plugin do. -/
inductive LoggerCall
  | logString (message : String)
  | logSnapshot (message : String)
  | init (name : String) (log : List StatusLogLine)
  | logStatus (log : List StatusLogLine)
  | logEvent (message : String)
  | features
  | unsupported
deriving DecidableEq

def LoggerPlugin.call (json : JsonLibrary) (request : Row) : LoggerCall :=
  match request["string"]? with
  | some message => .logString message
  | none =>
  match request["snapshot"]? with
  | some message => .logSnapshot message
  | none =>
  match request["init"]? with
  | some name => .init name (deserializeIntermediateLog json request)
  | none =>
  if request.contains "status" then .logStatus (deserializeIntermediateLog json request)
  else
    match request["event"]? with
    | some message => .logEvent message
    | none => if request["action"]? = some "features" then .features else .unsupported

/-- A line as it comes out of a request: texts end where they have a NUL character. -/
def StatusLogLine.received (i : StatusLogLine) : StatusLogLine :=
  { i with
    filename := cstr i.filename
    message := cstr i.message
    calendar_time := cstr i.calendar_time
    identifier := cstr i.identifier }

theorem readStatusLine_statusMembers (i : StatusLogLine) :
    readStatusLine (statusMembers i) = i.received := by
  have hline : ∀ n : UInt64, getUint64 (.int (n.toNat : ℤ)) = n := by
    intro n
    exact (congrArg UInt64.ofNat (Int.toNat_natCast _)).trans UInt64.ofNat_toNat
  have hseverity : getInt (.int i.severity.toInt) = i.severity := Int32.ofInt_toInt i.severity
  have hmembers : readStatusLine (statusMembers i) =
      { i.received with
        severity := getInt (.int i.severity.toInt)
        line := getUint64 (.int (i.line.toNat : ℤ))
        time := getUint64 (.int (i.time.toNat : ℤ)) } := rfl
  rw [hmembers, hline, hline, hseverity]
  rfl

theorem deserialize_serialize (json : JsonLibrary) (log : List StatusLogLine) (request : Row) :
    deserializeIntermediateLog json (serializeIntermediateLog json log request) =
      log.map StatusLogLine.received := by
  rw [deserializeIntermediateLog, serializeIntermediateLog, Std.ExtTreeMap.getElem?_insert_self]
  simp only [cstr_of_no_nul (json.write_no_nul _), json.parse_write, getArray, List.map_map]
  exact List.map_congr_left fun i _ => readStatusLine_statusMembers i

theorem call_serialize (json : JsonLibrary) (log : List StatusLogLine) :
    LoggerPlugin.call json
        (serializeIntermediateLog json log ((∅ : Row).insert "status" "true")) =
      .logStatus (deserializeIntermediateLog json
        (serializeIntermediateLog json log ((∅ : Row).insert "status" "true"))) := by
  rw [LoggerPlugin.call]
  simp [serializeIntermediateLog]

/-- A status request makes the plugin log its lines, with their texts as C strings. -/
theorem call_statusRequest (json : JsonLibrary) (log : List StatusLogLine) :
    LoggerPlugin.call json
        (serializeIntermediateLog json log ((∅ : Row).insert "status" "true")) =
      .logStatus (log.map StatusLogLine.received) := by
  rw [call_serialize, deserialize_serialize]

/-! ### The sink and its senders -/

/-- How far a sender is. -/
inductive Sender
  | started
  | identified (identifier : String)
  | taken (request : Row)
  | calling (request : Row) (loggers : List String)

/-- The future of a sender; what it refers to may have been moved away. -/
structure Future where
  sender : ℕ
  valid : Bool
deriving DecidableEq

structure State where
  logs_ : List StatusLogLine := []
  /-- The loggers that get status lines. -/
  sinks_ : List String := []
  /-- The queue of the futures. -/
  senders : List Future := []
  tasks : List Sender := []
  /-- The senders whose futures are not in the queue yet. -/
  unqueued : List ℕ := []
  logged : List StatusLogLine := []
  received : String → List StatusLogLine := fun _ => []

/-- The steps of all threads; a sender is named by its number. -/
inductive Action
  | send (line : StatusLogLine)
  | relayStatusLogs (disable_logging kDBInitialized async : Bool)
  | pushSender (sender : ℕ)
  | getHostIdentifier (sender : ℕ) (identifier : String)
  | flush (sender : ℕ)
  | getActive (sender : ℕ) (logger_plugin : String)
  | callLogger (sender : ℕ)
  | waitTillSent
  | resetPlugins
  | addPlugin (name : String)

/-- The lines of a request that a plugin logs. -/
def statusLines (json : JsonLibrary) (request : Row) : List StatusLogLine :=
  match LoggerPlugin.call json request with
  | .logStatus log => log
  | _ => []

namespace State

/-- The sender is made unless there is nothing to send or no one to send it to; its future is
queued by the thread that made it. -/
def relayStatusLogs (disable_logging kDBInitialized async : Bool) (s : State) : State :=
  if disable_logging || !kDBInitialized then s
  else if s.logs_.length = 0 then s
  else
    { s with
      tasks := s.tasks ++ [.started]
      unqueued := if async then s.unqueued else s.unqueued ++ [s.tasks.length] }

def pushSender (sender : ℕ) (s : State) : State :=
  if sender ∈ s.unqueued then
    { s with
      unqueued := s.unqueued.filter fun other => other ≠ sender
      senders := s.senders ++ [⟨sender, true⟩] }
  else s

/-- The buffered lines become a request and are cleared. -/
def flush (json : JsonLibrary) (sender : ℕ) (s : State) : State :=
  match s.tasks[sender]? with
  | some (.identified identifier) =>
      let status_logs := s.logs_.map fun log => { log with identifier := identifier }
      let request := serializeIntermediateLog json status_logs ((∅ : Row).insert "status" "true")
      { s with logs_ := [], tasks := s.tasks.set sender (.taken request) }
  | _ => s

/-- The next active logger is called if it gets status lines. -/
def callLogger (json : JsonLibrary) (sender : ℕ) (s : State) : State :=
  match s.tasks[sender]? with
  | some (.calling request (logger :: loggers)) =>
      let s := { s with tasks := s.tasks.set sender (.calling request loggers) }
      if logger ∈ s.sinks_ then
        { s with
          received := Function.update s.received logger
            (s.received logger ++ statusLines json request) }
      else s
  | _ => s

/-- The future at the back is moved away, and the one at the front is taken off the queue. -/
def waitTillSent (s : State) : State :=
  { s with senders := (s.senders.modifyLast fun last => { last with valid := false }).tail }

end State

def step (json : JsonLibrary) (s : State) : Action → State
  | .send line => { s with logs_ := s.logs_ ++ [line], logged := s.logged ++ [line] }
  | .relayStatusLogs disable_logging kDBInitialized async =>
      s.relayStatusLogs disable_logging kDBInitialized async
  | .pushSender sender => s.pushSender sender
  | .getHostIdentifier sender identifier =>
      match s.tasks[sender]? with
      | some .started => { s with tasks := s.tasks.set sender (.identified identifier) }
      | _ => s
  | .flush sender => s.flush json sender
  | .getActive sender logger_plugin =>
      match s.tasks[sender]? with
      | some (.taken request) =>
          { s with tasks := s.tasks.set sender (.calling request (split logger_plugin ",")) }
      | _ => s
  | .callLogger sender => s.callLogger json sender
  | .waitTillSent => s.waitTillSent
  | .resetPlugins => { s with sinks_ := [] }
  | .addPlugin name => { s with sinks_ := s.sinks_ ++ [name] }

/-! ### The lines of one logger -/

/-- What identifies a line: its parts that a request keeps, without the identifier that the
sender adds. -/
def StatusLogLine.plain (i : StatusLogLine) : StatusLogLine := { i.received with identifier := "" }

variable (json : JsonLibrary) (logger : String)

/-- The lines that a sender still has for a logger. -/
def owed : Sender → Multiset StatusLogLine
  | .taken request => ((statusLines json request).map StatusLogLine.plain : List StatusLogLine)
  | .calling request loggers =>
      loggers.count logger •
        ((statusLines json request).map StatusLogLine.plain : Multiset StatusLogLine)
  | _ => 0

/-- Every line that was sent is buffered, with one sender or with the logger. -/
def Accounted (s : State) : Prop :=
  ((s.received logger).map StatusLogLine.plain : Multiset StatusLogLine) +
      (s.tasks.map (owed json logger)).sum + (s.logs_.map StatusLogLine.plain : List _) =
    (s.logged.map StatusLogLine.plain : List StatusLogLine)

/-- A request with lines passes the logger by, or is meant for it more than once. -/
def Passes (s : State) : Action → Prop
  | .getActive sender logger_plugin =>
      ∃ request, s.tasks[sender]? = some (.taken request) ∧ statusLines json request ≠ [] ∧
        (split logger_plugin ",").count logger ≠ 1
  | .callLogger sender =>
      ∃ request loggers, s.tasks[sender]? = some (.calling request (logger :: loggers)) ∧
        statusLines json request ≠ [] ∧ logger ∉ s.sinks_
  | _ => False

/-! ### One step -/

theorem sum_map_set {τ M : Type*} [AddCommMonoid M] (f : τ → M) {l : List τ} {i : ℕ} {a : τ}
    (h : l[i]? = some a) (b : τ) : ((l.set i b).map f).sum + f a = (l.map f).sum + f b := by
  induction l generalizing i with
  | nil => cases h
  | cons x l ih =>
      cases i with
      | zero =>
          obtain rfl := Option.some.inj h
          simp only [List.set_cons_zero, List.map_cons, List.sum_cons]
          rw [add_right_comm, add_comm (f b), add_right_comm]
      | succ i =>
          simp only [List.set_cons_succ, List.map_cons, List.sum_cons]
          rw [add_assoc, ih h, add_assoc]

theorem nsmul_eq_self_iff {α : Type*} (n : ℕ) (m : Multiset α) : n • m = m ↔ n = 1 ∨ m = 0 := by
  constructor
  · intro h
    have hcard : n * m.card = m.card := (Multiset.card_nsmul m n).symm.trans (congrArg _ h)
    rcases Nat.eq_zero_or_pos m.card with hzero | hpos
    · exact .inr (Multiset.card_eq_zero.mp hzero)
    · exact .inl (Nat.eq_of_mul_eq_mul_right hpos (hcard.trans (one_mul _).symm))
  · rintro (rfl | rfl)
    · exact one_nsmul m
    · exact nsmul_zero n

theorem plain_received (i : StatusLogLine) (identifier : String) :
    StatusLogLine.plain (StatusLogLine.received { i with identifier := identifier }) = i.plain := by
  simp only [StatusLogLine.plain, StatusLogLine.received, cstr_cstr]

variable {json} {logger}

/-- What a flush turns into a request are the lines that were buffered. -/
theorem plain_statusLines (logs : List StatusLogLine) (identifier : String) :
    (statusLines json (serializeIntermediateLog json
        (logs.map fun log => { log with identifier := identifier })
        ((∅ : Row).insert "status" "true"))).map StatusLogLine.plain =
      logs.map StatusLogLine.plain := by
  rw [statusLines, call_serialize, deserialize_serialize]
  simp only [List.map_map]
  exact List.map_congr_left fun i _ => plain_received i identifier

/-- The lines that are with the logger, with its senders and in the buffer. -/
def present (json : JsonLibrary) (logger : String) (s : State) : Multiset StatusLogLine :=
  ((s.received logger).map StatusLogLine.plain : Multiset StatusLogLine) +
    (s.tasks.map (owed json logger)).sum + (s.logs_.map StatusLogLine.plain : List _)

theorem accounted_iff (s : State) : Accounted json logger s ↔
    present json logger s = (s.logged.map StatusLogLine.plain : List StatusLogLine) := Iff.rfl

section Steps

variable {s : State} {sender : ℕ} {task : Sender}

variable (json logger) in
/-- A sender goes on, and the logger and the buffer stay. -/
theorem present_set (h : s.tasks[sender]? = some task) (next : Sender) :
    present json logger { s with tasks := s.tasks.set sender next } + owed json logger task =
      present json logger s + owed json logger next := by
  simp only [present]
  rw [add_right_comm, add_assoc _ _ (owed json logger task), sum_map_set _ h next,
    ← add_assoc, add_right_comm]

theorem present_send (line : StatusLogLine) :
    present json logger (step json s (.send line)) = present json logger s + {line.plain} := by
  simp only [present, step, List.map_append, List.map_cons, List.map_nil, ← Multiset.coe_add,
    Multiset.coe_singleton, add_assoc]

theorem present_relayStatusLogs (disable_logging kDBInitialized async : Bool) :
    present json logger (s.relayStatusLogs disable_logging kDBInitialized async) =
      present json logger s := by
  rw [State.relayStatusLogs]
  split
  · rfl
  · split
    · rfl
    · simp only [present, List.map_append, List.sum_append, List.map_cons, List.map_nil,
        List.sum_cons, List.sum_nil, owed, add_zero]

theorem present_flush (sender : ℕ) :
    present json logger (s.flush json sender) = present json logger s := by
  rw [State.flush]
  cases htask : s.tasks[sender]? with
  | none => rfl
  | some task =>
      cases task with
      | identified identifier =>
          have hset := sum_map_set (owed json logger) htask (.taken (serializeIntermediateLog json
            (s.logs_.map fun log => { log with identifier := identifier })
            ((∅ : Row).insert "status" "true")))
          simp only [owed, add_zero, plain_statusLines] at hset
          simp only [present, hset, List.map_nil, Multiset.coe_nil, add_zero, add_assoc]
      | _ => rfl

/-- A logger that is called gets the lines that the sender has for it. -/
theorem present_append (lines : List StatusLogLine) :
    present json logger
        { s with received := Function.update s.received logger (s.received logger ++ lines) } =
      present json logger s + (lines.map StatusLogLine.plain : List _) := by
  simp only [present, Function.update_self, List.map_append, ← Multiset.coe_add]
  abel

theorem present_update_of_ne {other : String} (h : logger ≠ other) (lines : List StatusLogLine) :
    present json logger { s with received := Function.update s.received other lines } =
      present json logger s := by
  simp only [present, Function.update_of_ne h]

variable (json logger) in
theorem present_callLogger {request : Row} {next : String} {loggers : List String}
    (h : s.tasks[sender]? = some (.calling request (next :: loggers))) :
    present json logger (s.callLogger json sender) +
        (if next = logger ∧ next ∉ s.sinks_
          then (statusLines json request).map StatusLogLine.plain else [] : List _) =
      present json logger s := by
  have hset := present_set json logger h (.calling request loggers)
  simp only [owed, List.count_cons] at hset
  simp only [State.callLogger, h]
  by_cases hname : next = logger
  · subst hname
    simp only [beq_self_eq_true, if_true, add_nsmul, one_nsmul, ← add_assoc] at hset
    have hcancel := add_right_cancel ((add_right_comm _ _ _).trans hset)
    by_cases henabled : next ∈ s.sinks_
    · rw [if_pos henabled, if_neg fun hboth => hboth.2 henabled, Multiset.coe_nil, add_zero]
      exact (present_append (s := { s with tasks := s.tasks.set sender _ }) _).trans hcancel
    · rw [if_neg henabled, if_pos ⟨rfl, henabled⟩]
      exact hcancel
  · rw [if_neg (show ¬(next = logger ∧ next ∉ s.sinks_) from fun hboth => hname hboth.1),
      Multiset.coe_nil, add_zero]
    simp only [beq_false_of_ne hname, Bool.false_eq_true, if_false, add_zero] at hset
    have hcancel := add_right_cancel hset
    split
    · exact (present_update_of_ne (s := { s with tasks := s.tasks.set sender _ })
        (Ne.symm hname) _).trans hcancel
    · exact hcancel

variable (json logger) in
theorem present_getActive {request : Row} (h : s.tasks[sender]? = some (.taken request))
    (logger_plugin : String) :
    present json logger (step json s (.getActive sender logger_plugin)) +
        ((statusLines json request).map StatusLogLine.plain : List _) =
      present json logger s + (split logger_plugin ",").count logger •
        ((statusLines json request).map StatusLogLine.plain : Multiset StatusLogLine) := by
  simp only [step, h]
  exact present_set json logger h (.calling request (split logger_plugin ","))

theorem logged_step (action : Action) (hsend : ∀ line, action ≠ .send line) :
    (step json s action).logged = s.logged := by
  cases action with
  | send line => exact absurd rfl (hsend line)
  | relayStatusLogs disable_logging kDBInitialized async =>
      simp only [step, State.relayStatusLogs]
      split
      · rfl
      · split <;> rfl
  | pushSender sender =>
      simp only [step, State.pushSender]
      split <;> rfl
  | getHostIdentifier sender identifier =>
      simp only [step]
      split <;> rfl
  | flush sender =>
      simp only [step, State.flush]
      split <;> rfl
  | getActive sender logger_plugin =>
      simp only [step]
      split <;> rfl
  | callLogger sender =>
      simp only [step, State.callLogger]
      split
      · split <;> rfl
      · rfl
  | waitTillSent => rfl
  | resetPlugins => rfl
  | addPlugin name => rfl

/-- A sender that reads the active loggers. -/
theorem accounted_getActive_iff (h : Accounted json logger s) {request : Row}
    (htaken : s.tasks[sender]? = some (.taken request)) (logger_plugin : String) :
    Accounted json logger (step json s (.getActive sender logger_plugin)) ↔
      ¬Passes json logger s (.getActive sender logger_plugin) := by
  have hpresent := present_getActive json logger htaken logger_plugin
  have hpasses : Passes json logger s (.getActive sender logger_plugin) ↔
      statusLines json request ≠ [] ∧ (split logger_plugin ",").count logger ≠ 1 := by
    constructor
    · rintro ⟨request', htaken', hrequest⟩
      obtain rfl := Sender.taken.inj (Option.some.inj (htaken.symm.trans htaken'))
      exact hrequest
    · exact fun hrequest => ⟨request, htaken, hrequest⟩
  rw [accounted_iff, logged_step (.getActive ..) nofun, ← (accounted_iff s).mp h, hpasses,
    ← add_left_inj ((statusLines json request).map StatusLogLine.plain : Multiset _),
    hpresent, add_right_inj, nsmul_eq_self_iff, not_and_not_right]
  constructor
  · rintro (hone | hzero) hrequest
    · exact hone
    · exact absurd (List.map_eq_nil_iff.mp ((Multiset.coe_eq_zero _).mp hzero)) hrequest
  · intro hone
    by_cases hrequest : statusLines json request = []
    · rw [hrequest]
      exact .inr rfl
    · exact .inl (hone hrequest)

/-- A sender that gets to a logger. -/
theorem accounted_callLogger_iff (h : Accounted json logger s) {request : Row} {next : String}
    {loggers : List String}
    (hcalling : s.tasks[sender]? = some (.calling request (next :: loggers))) :
    Accounted json logger (step json s (.callLogger sender)) ↔
      ¬Passes json logger s (.callLogger sender) := by
  have hpresent := present_callLogger json logger hcalling
  have hpasses : Passes json logger s (.callLogger sender) ↔
      (next = logger ∧ next ∉ s.sinks_) ∧ statusLines json request ≠ [] := by
    constructor
    · rintro ⟨request', loggers', hcalling', hrequest, henabled⟩
      have hsame := Option.some.inj (hcalling.symm.trans hcalling')
      obtain ⟨rfl, hnext⟩ := Sender.calling.inj hsame
      obtain ⟨rfl, rfl⟩ := List.cons.inj hnext
      exact ⟨⟨rfl, henabled⟩, hrequest⟩
    · rintro ⟨⟨rfl, henabled⟩, hrequest⟩
      exact ⟨request, loggers, hcalling, hrequest, henabled⟩
  rw [accounted_iff, logged_step (.callLogger sender) nofun, ← (accounted_iff s).mp h,
    hpasses, ← hpresent]
  change present json logger (s.callLogger json sender) = _ ↔ _
  rw [left_eq_add, Multiset.coe_eq_zero]
  by_cases hpassed : next = logger ∧ next ∉ s.sinks_
  · rw [if_pos hpassed, List.map_eq_nil_iff, and_iff_right hpassed, not_not]
  · rw [if_neg hpassed]
    exact iff_of_true rfl fun hboth => hpassed hboth.1

/-- The lines stay accounted for unless the step passes the logger by. -/
theorem accounted_step_iff (h : Accounted json logger s) (action : Action) :
    Accounted json logger (step json s action) ↔ ¬Passes json logger s action := by
  have hsame : (∀ line, action ≠ .send line) →
      present json logger (step json s action) = present json logger s →
      Accounted json logger (step json s action) := by
    intro hsend hpresent
    rw [accounted_iff, hpresent, logged_step action hsend]
    exact h
  cases action with
  | send line =>
      refine iff_of_true ?_ id
      rw [accounted_iff, present_send, (accounted_iff s).mp h]
      simp only [step, List.map_append, List.map_cons, List.map_nil, ← Multiset.coe_add,
        Multiset.coe_singleton]
  | relayStatusLogs disable_logging kDBInitialized async =>
      exact iff_of_true (hsame nofun (present_relayStatusLogs ..)) id
  | pushSender sender =>
      refine iff_of_true (hsame nofun ?_) id
      simp only [step, State.pushSender]
      split <;> rfl
  | getHostIdentifier sender identifier =>
      refine iff_of_true (hsame nofun ?_) id
      simp only [step]
      split
      · next hstarted =>
          have hset := present_set json logger hstarted
            (.identified identifier)
          simp only [owed, add_zero] at hset
          exact hset
      · rfl
  | flush sender => exact iff_of_true (hsame nofun (present_flush sender)) id
  | getActive sender logger_plugin =>
      by_cases htaken : ∃ request, s.tasks[sender]? = some (.taken request)
      · obtain ⟨request, htaken⟩ := htaken
        exact accounted_getActive_iff h htaken logger_plugin
      · refine iff_of_true (hsame nofun ?_) fun ⟨request, hrequest, _⟩ => htaken ⟨request, hrequest⟩
        simp only [step]
        split
        · next hsome => exact absurd ⟨_, hsome⟩ htaken
        · rfl
  | callLogger sender =>
      by_cases hcalling : ∃ request next loggers,
          s.tasks[sender]? = some (.calling request (next :: loggers))
      · obtain ⟨request, next, loggers, hcalling⟩ := hcalling
        exact accounted_callLogger_iff h hcalling
      · have hnone : ∀ request loggers,
            s.tasks[sender]? ≠ some (.calling request (logger :: loggers)) :=
          fun request loggers hsome => hcalling ⟨request, logger, loggers, hsome⟩
        refine iff_of_true (hsame nofun ?_) fun ⟨request, loggers, hsome, _⟩ =>
          hnone request loggers hsome
        simp only [step, State.callLogger]
        split
        · next hsome => exact absurd ⟨_, _, _, hsome⟩ hcalling
        · rfl
  | waitTillSent => exact iff_of_true (hsame nofun rfl) id
  | resetPlugins => exact iff_of_true (hsame nofun rfl) id
  | addPlugin name => exact iff_of_true (hsame nofun rfl) id

end Steps

/-! ### Runs -/

/-- In every interleaving the lines of a logger are all accounted for, none lost and none doubled,
exactly as long as no request with lines passes the logger by. -/
theorem accounted_throughout_iff (json : JsonLibrary) (logger : String) (actions : List Action) :
    Throughout (step json) (fun s action => Accounted json logger (step json s action)) {}
        actions ↔
      Throughout (step json) (fun s action => ¬Passes json logger s action) {} actions := by
  have hstart : Accounted json logger {} := rfl
  refine throughout_iff_of_invariant (I := Accounted json logger) ?_ ?_ hstart throughout_true
  · exact fun s action h _ => accounted_step_iff h action
  · exact fun s action h _ hgood => (accounted_step_iff h action).mpr hgood

end Osquery.Logger.StatusLogs

/-!
## Waiting for senders

After a line was sent, its thread takes the future at the back of the queue of senders, waits
for it, and takes the future at the front off the queue. With one future in the queue the two
are the same. With more, a future that was moved away stays at the back, and the next thread that
waits has nothing to wait for, unless a future was queued in between.
-/

namespace Osquery.Logger.StatusLogs

open Foundation.JsonText Foundation.Simulation

/-- The action waits for a future that was moved away. -/
def WaitsForNothing (s : State) (action : Action) : Prop :=
  action = .waitTillSent ∧ ∃ last, s.senders.getLast? = some last ∧ last.valid = false

/-- The sink, and whether the last operation on the queue was a wait that found a future. -/
structure QueueRun where
  sink : State := {}
  waited : Bool := false

def QueueRun.step (json : JsonLibrary) (q : QueueRun) (action : Action) : QueueRun where
  sink := StatusLogs.step json q.sink action
  waited :=
    match action with
    | .pushSender sender => if sender ∈ q.sink.unqueued then false else q.waited
    | .waitTillSent => if q.sink.senders = [] then q.waited else true
    | _ => q.waited

/-- Two waits in a row, and the first one left a future. -/
def WaitsAgain (q : QueueRun) (action : Action) : Prop :=
  action = .waitTillSent ∧ q.sink.senders ≠ [] ∧ q.waited = true

/-- The future at the back was moved away if the last operation was a wait. -/
def BackMoved (q : QueueRun) : Prop :=
  ∀ last, q.sink.senders.getLast? = some last → (last.valid = false ↔ q.waited = true)

variable {json : JsonLibrary} {s : State} {q : QueueRun}

/-- Only queueing a future and waiting change the queue. -/
theorem senders_step (action : Action) (hpush : ∀ sender, action ≠ .pushSender sender)
    (hwait : action ≠ .waitTillSent) : (step json s action).senders = s.senders := by
  cases action with
  | pushSender sender => exact absurd rfl (hpush sender)
  | waitTillSent => exact absurd rfl hwait
  | send line => rfl
  | relayStatusLogs disable_logging kDBInitialized async =>
      simp only [step, State.relayStatusLogs]
      split
      · rfl
      · split <;> rfl
  | getHostIdentifier sender identifier =>
      simp only [step]
      split <;> rfl
  | flush sender =>
      simp only [step, State.flush]
      split <;> rfl
  | getActive sender logger_plugin =>
      simp only [step]
      split <;> rfl
  | callLogger sender =>
      simp only [step, State.callLogger]
      split
      · split <;> rfl
      · rfl
  | resetPlugins => rfl
  | addPlugin name => rfl

/-- After a wait, a future at the back is one that was moved away. -/
theorem valid_of_getLast?_waitTillSent {last : Future}
    (h : s.waitTillSent.senders.getLast? = some last) : last.valid = false := by
  rw [State.waitTillSent] at h
  rcases List.eq_nil_or_concat s.senders with hnil | ⟨front, back, hconcat⟩
  · rw [hnil] at h
    cases h
  · have hmodify : s.senders.modifyLast (fun last => { last with valid := false }) =
        front ++ [{ back with valid := false }] := by
      rw [hconcat, List.concat_eq_append, List.modifyLast_concat]
    rw [hmodify] at h
    cases front with
    | nil => cases h
    | cons first front =>
        rw [List.cons_append, List.tail_cons, List.getLast?_append, List.getLast?_singleton,
          Option.some_or] at h
        obtain rfl := Option.some.inj h
        rfl

theorem waited_step (action : Action) (hpush : ∀ sender, action ≠ .pushSender sender)
    (hwait : action ≠ .waitTillSent) : (q.step json action).waited = q.waited := by
  cases action with
  | pushSender sender => exact absurd rfl (hpush sender)
  | waitTillSent => exact absurd rfl hwait
  | _ => rfl

theorem BackMoved.step (h : BackMoved q) (action : Action) : BackMoved (q.step json action) := by
  intro last hlast
  by_cases hpush : ∃ sender, action = .pushSender sender
  · obtain ⟨sender, rfl⟩ := hpush
    simp only [QueueRun.step, StatusLogs.step, State.pushSender] at hlast ⊢
    by_cases hunqueued : sender ∈ q.sink.unqueued
    · rw [if_pos hunqueued, List.getLast?_append, List.getLast?_singleton,
        Option.some_or] at hlast
      obtain rfl := Option.some.inj hlast
      rw [if_pos hunqueued]
      exact iff_of_false Bool.noConfusion Bool.noConfusion
    · rw [if_neg hunqueued] at hlast ⊢
      exact h last hlast
  · by_cases hwait : action = .waitTillSent
    · subst hwait
      refine iff_of_true (valid_of_getLast?_waitTillSent hlast) (if_neg fun hnil => ?_)
      change q.sink.waitTillSent.senders.getLast? = some last at hlast
      rw [State.waitTillSent, hnil] at hlast
      cases hlast
    · rw [not_exists] at hpush
      rw [waited_step action hpush hwait]
      exact h last ((congrArg _ (senders_step action hpush hwait)).symm.trans hlast)

theorem waitsForNothing_iff (h : BackMoved q) (action : Action) :
    WaitsForNothing q.sink action ↔ WaitsAgain q action := by
  apply and_congr_right
  rintro -
  constructor
  · rintro ⟨last, hlast, hvalid⟩
    refine ⟨fun hnil => ?_, (h last hlast).mp hvalid⟩
    rw [hnil] at hlast
    cases hlast
  · rintro ⟨hsome, hwaited⟩
    have hlast := List.getLast?_eq_some_getLast hsome
    exact ⟨_, hlast, (h _ hlast).mpr hwaited⟩

/-- In every interleaving no thread waits for a future that was moved away exactly as long as no
two waits follow each other while the queue holds a future. -/
theorem waitsForNothing_throughout_iff (json : JsonLibrary) (actions : List Action) :
    Throughout (QueueRun.step json) (fun q action => ¬WaitsForNothing q.sink action) {} actions ↔
      Throughout (QueueRun.step json) (fun q action => ¬WaitsAgain q action) {} actions := by
  have hstart : BackMoved {} := fun _ hlast => nomatch hlast
  refine throughout_iff_of_invariant (I := BackMoved) ?_ ?_ hstart throughout_true
  · exact fun q action h _ => not_congr (waitsForNothing_iff h action)
  · exact fun q action h _ _ => h.step action

end Osquery.Logger.StatusLogs
