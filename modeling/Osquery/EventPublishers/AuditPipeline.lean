import Osquery.EventPublishers.AuditAssembly
import Osquery.EventPublishers.AuditParsing

/-!
# The threads behind the audit publisher

A reader queues the messages of the kernel, a parser turns them into records, and the publisher
waits for records and assembles what it is handed into events. However the threads take turns,
the events that were fired are those of a plain assembly of the records that the publisher was
handed, in batches. These records come first in what the messages parse to, and nothing behind
them is lost or changes its place. A parser that is interrupted leaves the rest.

## Implementation notes

What the kernel sends, when the reader stops reading, and whether a wait ends without a
notification are left open. No result stands for a message that ends the process: one whose type
comes without a text, or whose parsing throws. What a status message makes the reader do is left
out. The messages that were received, the batches and the events that were fired are kept beside
the state.
-/

namespace Osquery.EventPublishers

open Foundation.Grouping

def NLMSG_NOOP : ℤ := 1
def NLMSG_ERROR : ℤ := 2
def NLMSG_DONE : ℤ := 3
def AUDIT_GET : ℤ := 1000
def AUDIT_LIST_RULES : ℤ := 1013
def AUDIT_DAEMON_START : ℤ := 1200
def AUDIT_DAEMON_CONFIG : ℤ := 1203
def AUDIT_CONFIG_CHANGE : ℤ := 1305
def AUDIT_SECCOMP : ℤ := 1326

/-- The types of messages that are turned into records. -/
def shouldHandle (audit_allow_selinux_events : Bool) (type : ℤ) : Bool :=
  if type ∈ kSELinuxEventList then audit_allow_selinux_events
  else
    !decide (type ∈ [NLMSG_NOOP, NLMSG_DONE, NLMSG_ERROR, AUDIT_LIST_RULES, AUDIT_SECCOMP,
        AUDIT_GET] ∨
      (AUDIT_GET + 1 ≤ type ∧ type ≤ AUDIT_LIST_RULES - 1) ∨
      (AUDIT_LIST_RULES + 1 ≤ type ∧ type ≤ AUDIT_FIRST_USER_MSG - 1) ∨
      (AUDIT_DAEMON_START ≤ type ∧ type ≤ AUDIT_DAEMON_CONFIG) ∨ type = AUDIT_CONFIG_CHANGE)

namespace AuditPipeline

variable (part : List Char → UInt64 → UInt64 → Option (List Char))
  (audit_allow_selinux_events : Bool) (unhex : String → Option String) (executable_path : String)

/-- The record of a message, if it has one. -/
def handleReply (reply : AuditReply) : Option (Option AuditEventRecord) :=
  if reply.type = AUDIT_GET then some none
  else if !shouldHandle audit_allow_selinux_events reply.type then some none
  else if !hasMessage reply.type then none
  else
    (parseAuditReply part reply).map fun (parsed, event_record) =>
      if parsed then some event_record else none

/-- The records of messages in their order. -/
def records (replies : List AuditReply) : List AuditEventRecord :=
  replies.filterMap fun reply =>
    (handleReply part audit_allow_selinux_events reply).bind id

/-! ### The threads -/

inductive Parser
  | idle
  | waiting
  /-- It has yet to parse some messages, and has some records of others. -/
  | parsing (queue : List AuditReply) (audit_event_record_queue : List AuditEventRecord)
  | ended

inductive Publisher
  | idle
  | waiting (notified : Bool)
  | returned (no_timeout : Bool)

def Publisher.notify : Publisher → Publisher
  | .waiting _ => .waiting true
  | publisher => publisher

structure State where
  read_buffer : List AuditReply := []
  unprocessed_records : List AuditReply := []
  parser : Parser := .idle
  processed_events : List AuditEventRecord := []
  publisher : Publisher := .idle
  audit_trace_context : AuditTraceContext := ∅
  interrupted : Bool := false
  terminated : Bool := false
  received : List AuditReply := []
  /-- What the parser had left when it was interrupted. -/
  left : List AuditReply := []
  batches : List (ℤ × List AuditEventRecord) := []
  fired : List AuditEvent := []

inductive Action
  | receive (reply : AuditReply)
  | queueReplies
  | checkInterrupted
  | takeReplies
  | parse
  | save
  | interrupt
  | beginWait
  | endWait (spurious : Bool)
  | run (current_time : ℤ)

namespace State

/-- The reader has a buffer of a fixed size. -/
def receive (s : State) (reply : AuditReply) : State :=
  if s.read_buffer.length < 4096 then
    { s with read_buffer := s.read_buffer ++ [reply], received := s.received ++ [reply] }
  else s

def queueReplies (s : State) : State :=
  { s with unprocessed_records := s.unprocessed_records ++ s.read_buffer, read_buffer := [] }

def checkInterrupted (s : State) : State :=
  match s.parser with
  | .idle => { s with parser := if s.interrupted then .ended else .waiting }
  | _ => s

/-- The parser waits until there is a message or it is interrupted. -/
def takeReplies (s : State) : State :=
  match s.parser with
  | .waiting =>
      if s.unprocessed_records.isEmpty && !s.interrupted then s
      else { s with parser := .parsing s.unprocessed_records [], unprocessed_records := [] }
  | _ => s

def parse (s : State) : State :=
  match s.parser with
  | .parsing (reply :: queue) records =>
      if s.interrupted then
        { s with parser := .parsing [] records, left := s.left ++ reply :: queue }
      else
        match handleReply part audit_allow_selinux_events reply with
        | none => { s with terminated := true }
        | some record => { s with parser := .parsing queue (records ++ record.toList) }
  | _ => s

/-- The publisher is notified if there are new records. -/
def save (s : State) : State :=
  match s.parser with
  | .parsing [] records =>
      { s with
        parser := .idle
        processed_events := s.processed_events ++ records
        publisher := if records.isEmpty then s.publisher else s.publisher.notify }
  | _ => s

def beginWait (s : State) : State :=
  match s.publisher with
  | .idle => { s with publisher := .waiting false }
  | _ => s

def endWait (s : State) (spurious : Bool) : State :=
  match s.publisher with
  | .waiting notified => { s with publisher := .returned (notified || spurious) }
  | _ => s

/-- `getEvents` returns and the records are assembled. -/
def run (s : State) (current_time : ℤ) : State :=
  match s.publisher with
  | .returned no_timeout =>
      let record_list := if no_timeout then s.processed_events else []
      let assembly :=
        processEvents unhex executable_path current_time record_list s.audit_trace_context
      { s with
        publisher := .idle
        processed_events := if no_timeout then [] else s.processed_events
        audit_trace_context := assembly.2
        batches := s.batches ++ [(current_time, record_list)]
        fired := s.fired ++ assembly.1 }
  | _ => s

end State

def step (s : State) (action : Action) : State :=
  if s.terminated then s
  else
    match action with
    | .receive reply => s.receive reply
    | .queueReplies => s.queueReplies
    | .checkInterrupted => s.checkInterrupted
    | .takeReplies => s.takeReplies
    | .parse => s.parse part audit_allow_selinux_events
    | .save => s.save
    | .interrupt => { s with interrupted := true }
    | .beginWait => s.beginWait
    | .endWait spurious => s.endWait spurious
    | .run current_time => s.run unhex executable_path current_time

/-! ### What is delivered and what is on its way -/

namespace Parser

def queue : Parser → List AuditReply
  | .parsing queue _ => queue
  | _ => []

def records : Parser → List AuditEventRecord
  | .parsing _ records => records
  | _ => []

end Parser

namespace State

/-- The records that the publisher was handed. -/
def delivered (s : State) : List AuditEventRecord := s.batches.flatMap Prod.snd

/-- The messages that are not parsed yet. -/
def unparsed (s : State) : List AuditReply :=
  s.left ++ s.parser.queue ++ s.unprocessed_records ++ s.read_buffer

end State

/-- The events that were fired are those of the batches, and nothing is lost or out of place. -/
structure Delivers (s : State) : Prop where
  assembled : processBatches unhex executable_path s.batches ∅ = (s.fired, s.audit_trace_context)
  stream : s.delivered ++ s.processed_events ++ s.parser.records ++
    records part audit_allow_selinux_events s.unparsed =
      records part audit_allow_selinux_events s.received
  left : s.left ≠ [] → s.interrupted = true ∧ s.parser.queue = [] ∧ s.parser ≠ .waiting

variable {part audit_allow_selinux_events unhex executable_path}

theorem processBatches_append (batches more : List (ℤ × List AuditEventRecord))
    (trace_context : AuditTraceContext) :
    processBatches unhex executable_path (batches ++ more) trace_context =
      ((processBatches unhex executable_path batches trace_context).1 ++
          (processBatches unhex executable_path more
            (processBatches unhex executable_path batches trace_context).2).1,
        (processBatches unhex executable_path more
          (processBatches unhex executable_path batches trace_context).2).2) := by
  induction batches generalizing trace_context with
  | nil => rfl
  | cons batch batches ih =>
      obtain ⟨current_time, record_list⟩ := batch
      simp only [List.cons_append, processBatches, ih, List.append_assoc]

theorem records_append (replies more : List AuditReply) :
    records part audit_allow_selinux_events (replies ++ more) =
      records part audit_allow_selinux_events replies ++
        records part audit_allow_selinux_events more :=
  List.filterMap_append

theorem records_cons (reply : AuditReply) (replies : List AuditReply) :
    records part audit_allow_selinux_events (reply :: replies) =
      ((handleReply part audit_allow_selinux_events reply).bind id).toList ++
        records part audit_allow_selinux_events replies := by
  rw [records, List.filterMap_cons]
  cases (handleReply part audit_allow_selinux_events reply).bind id <;> rfl

namespace Delivers

variable {s : State}

theorem initial : Delivers part audit_allow_selinux_events unhex executable_path {} :=
  ⟨rfl, rfl, fun h => absurd rfl h⟩

/-- Only what a step touches has to be looked at. -/
theorem receive (h : Delivers part audit_allow_selinux_events unhex executable_path s)
    (reply : AuditReply) :
    Delivers part audit_allow_selinux_events unhex executable_path (s.receive reply) := by
  rw [State.receive]
  split
  · have hstream := h.stream
    refine ⟨h.assembled, ?_, h.left⟩
    simp only [State.delivered, State.unparsed, ← List.append_assoc, records_append] at hstream ⊢
    rw [hstream]
  · exact h

theorem queueReplies (h : Delivers part audit_allow_selinux_events unhex executable_path s) :
    Delivers part audit_allow_selinux_events unhex executable_path s.queueReplies := by
  refine ⟨h.assembled, ?_, h.left⟩
  have hunparsed : s.queueReplies.unparsed = s.unparsed := by
    simp only [State.unparsed, State.queueReplies, List.append_assoc, List.append_nil]
  rw [hunparsed]
  exact h.stream

theorem checkInterrupted (h : Delivers part audit_allow_selinux_events unhex executable_path s) :
    Delivers part audit_allow_selinux_events unhex executable_path s.checkInterrupted := by
  rw [State.checkInterrupted]
  split
  · next hidle =>
      have hstream := h.stream
      rw [State.unparsed, hidle] at hstream
      refine ⟨h.assembled, ?_, fun hleft => ?_⟩
      · cases s.interrupted <;> exact hstream
      · have hinterrupted := (h.left hleft).1
        refine ⟨hinterrupted, ?_⟩
        change Parser.queue (if s.interrupted then .ended else .waiting) = [] ∧
          (if s.interrupted then Parser.ended else .waiting) ≠ .waiting
        rw [if_pos hinterrupted]
        exact ⟨rfl, nofun⟩
  · exact h

theorem takeReplies (h : Delivers part audit_allow_selinux_events unhex executable_path s) :
    Delivers part audit_allow_selinux_events unhex executable_path s.takeReplies := by
  rw [State.takeReplies]
  split
  · next hwaiting =>
      split
      · exact h
      · have hstream := h.stream
        rw [State.unparsed, hwaiting] at hstream
        refine ⟨h.assembled, ?_, fun hleft => absurd hwaiting (h.left hleft).2.2⟩
        simp only [State.unparsed, Parser.queue, Parser.records, List.append_nil] at hstream ⊢
        exact hstream
  · exact h

theorem parse (h : Delivers part audit_allow_selinux_events unhex executable_path s) :
    Delivers part audit_allow_selinux_events unhex executable_path
      (s.parse part audit_allow_selinux_events) := by
  rw [State.parse]
  split
  · next reply queue out hparsing =>
      have hstream := h.stream
      have hnone : s.left = [] := by
        by_contra hleft
        have hqueue := (h.left hleft).2.1
        rw [hparsing] at hqueue
        cases hqueue
      rw [State.unparsed, hparsing, hnone] at hstream
      split
      · next hinterrupted =>
          refine ⟨h.assembled, ?_, fun _ => ⟨hinterrupted, rfl, nofun⟩⟩
          rw [State.unparsed, hnone]
          simp only [State.delivered, Parser.queue, Parser.records, List.append_nil,
            List.nil_append] at hstream ⊢
          exact hstream
      · cases hreply : handleReply part audit_allow_selinux_events reply with
        | none => exact ⟨h.assembled, h.stream, h.left⟩
        | some record =>
            refine ⟨h.assembled, ?_, fun hleft => absurd hnone hleft⟩
            rw [State.unparsed, hnone]
            simp only [Parser.queue, Parser.records, List.nil_append, List.cons_append,
              records_cons, hreply, Option.bind_some, id_eq, ← List.append_assoc] at hstream ⊢
            exact hstream
  · exact h

theorem save (h : Delivers part audit_allow_selinux_events unhex executable_path s) :
    Delivers part audit_allow_selinux_events unhex executable_path s.save := by
  rw [State.save]
  split
  · next out hparsing =>
      have hstream := h.stream
      rw [State.unparsed, hparsing] at hstream
      refine ⟨h.assembled, ?_, fun hleft => ⟨(h.left hleft).1, rfl, nofun⟩⟩
      simp only [State.unparsed, State.delivered, Parser.queue, Parser.records, List.append_nil,
        List.append_assoc] at hstream ⊢
      exact hstream
  · exact h

theorem run (h : Delivers part audit_allow_selinux_events unhex executable_path s)
    (current_time : ℤ) :
    Delivers part audit_allow_selinux_events unhex executable_path
      (s.run unhex executable_path current_time) := by
  rw [State.run]
  split
  · next no_timeout hreturned =>
      refine ⟨?_, ?_, h.left⟩
      · change processBatches unhex executable_path (s.batches ++ _) ∅ = _
        rw [processBatches_append, h.assembled]
        simp [processBatches]
      · refine Eq.trans ?_ h.stream
        cases no_timeout <;>
          simp [State.delivered, State.unparsed]
  · exact h

end Delivers

/-- What one step keeps. -/
theorem Delivers.step {s : State}
    (h : Delivers part audit_allow_selinux_events unhex executable_path s) (action : Action) :
    Delivers part audit_allow_selinux_events unhex executable_path
      (step part audit_allow_selinux_events unhex executable_path s action) := by
  unfold AuditPipeline.step
  split
  · exact h
  · cases action with
    | receive reply => exact h.receive reply
    | queueReplies => exact h.queueReplies
    | checkInterrupted => exact h.checkInterrupted
    | takeReplies => exact h.takeReplies
    | parse => exact h.parse
    | save => exact h.save
    | interrupt => exact ⟨h.assembled, h.stream, fun hleft => ⟨rfl, (h.left hleft).2⟩⟩
    | beginWait =>
        simp only [State.beginWait]
        split
        · exact ⟨h.assembled, h.stream, h.left⟩
        · exact h
    | endWait spurious =>
        simp only [State.endWait]
        split
        · exact ⟨h.assembled, h.stream, h.left⟩
        · exact h
    | run current_time => exact h.run current_time

theorem Delivers.foldl {s : State}
    (h : Delivers part audit_allow_selinux_events unhex executable_path s)
    (actions : List Action) :
    Delivers part audit_allow_selinux_events unhex executable_path
      (actions.foldl (AuditPipeline.step part audit_allow_selinux_events unhex executable_path)
        s) := by
  induction actions generalizing s with
  | nil => exact h
  | cons action actions ih => exact ih (h.step action)

/-- In every interleaving of the threads, the events that were fired are those of an assembly of
the batches, and the batches with what is on its way are the records of what was received. -/
theorem delivers_foldl (part : List Char → UInt64 → UInt64 → Option (List Char))
    (audit_allow_selinux_events : Bool) (unhex : String → Option String)
    (executable_path : String) (actions : List Action) :
    Delivers part audit_allow_selinux_events unhex executable_path
      (actions.foldl (step part audit_allow_selinux_events unhex executable_path) {}) :=
  Delivers.initial.foldl actions

/-! ### System calls -/

variable {ι : Type} {calls : ι → AuditedCall unhex executable_path}

theorem eoe_injective (hids : Function.Injective fun i => (calls i).audit_id) :
    Function.Injective fun i => (calls i).eoe := by
  intro i j h
  have heoe : ∀ i, (calls i).eoe.audit_id = (calls i).audit_id := fun i =>
    (calls i).ids _ (by simp)
  exact hids ((heoe i).symm.trans ((congrArg AuditEventRecord.audit_id h).trans (heoe j)))

theorem batches_step (s : State) {action : Action}
    (hrun : ∀ current_time, action ≠ .run current_time) :
    (step part audit_allow_selinux_events unhex executable_path s action).batches = s.batches := by
  unfold step
  split
  · rfl
  · cases action with
    | run current_time => exact absurd rfl (hrun current_time)
    | queueReplies | interrupt => rfl
    | receive | checkInterrupted | takeReplies | parse | save | beginWait | endWait =>
        simp only [State.receive, State.checkInterrupted, State.takeReplies, State.parse,
          State.save, State.beginWait, State.endWait]
        repeat' split
        all_goals rfl

theorem mem_batches_step {s : State} {action : Action} {batch : ℤ × List AuditEventRecord}
    (h : batch ∈
      (step part audit_allow_selinux_events unhex executable_path s action).batches) :
    batch ∈ s.batches ∨ action = .run batch.1 := by
  by_cases hrun : ∃ current_time, action = .run current_time
  · obtain ⟨current_time, rfl⟩ := hrun
    simp only [step, State.run] at h
    split at h
    · exact .inl h
    · split at h
      · rcases List.mem_append.mp h with hold | hnew
        · exact .inl hold
        · obtain rfl := List.mem_singleton.mp hnew
          exact .inr rfl
      · exact .inl h
  · rw [batches_step s fun current_time heq => hrun ⟨current_time, heq⟩] at h
    exact .inl h

/-- The times of the batches are those at which the publisher ran. -/
theorem forall_batches_foldl {P : ℤ → Prop} {s : State} (hs : ∀ batch ∈ s.batches, P batch.1)
    (actions : List Action)
    (hactions : ∀ current_time, .run current_time ∈ actions → P current_time) :
    ∀ batch ∈ (actions.foldl (step part audit_allow_selinux_events unhex executable_path)
      s).batches, P batch.1 := by
  induction actions generalizing s with
  | nil => exact hs
  | cons action actions ih =>
      refine ih ?_ fun current_time h => hactions current_time (List.mem_cons_of_mem _ h)
      intro batch hbatch
      obtain hold | rfl := mem_batches_step hbatch
      · exact hs batch hold
      · exact hactions _ List.mem_cons_self

/-- In every interleaving of the threads and of the calls, the events that were fired are those of
the calls whose terminators the publisher was handed, each once, in the order of the terminators,
and the other calls have what was handed over of them. -/
theorem fired_in_order [DecidableEq ι]
    (part : List Char → UInt64 → UInt64 → Option (List Char)) (audit_allow_selinux_events : Bool)
    (calls : ι → AuditedCall unhex executable_path)
    (hids : Function.Injective fun i => (calls i).audit_id) (stream : List AuditEventRecord)
    (hmerge : Merge (fun i => (calls i).records) stream) (actions : List Action)
    (hreceived : records part audit_allow_selinux_events
      (actions.foldl (step part audit_allow_selinux_events unhex executable_path) {}).received <+:
        stream)
    (hage : ∀ current_time, .run current_time ∈ actions →
      ∀ i, current_time - eventTimestamp (calls i).audit_id < 300) :
    let s := actions.foldl (step part audit_allow_selinux_events unhex executable_path) {}
    (∃ order : List ι, order.Nodup ∧
      (s.delivered.filter fun record => record.type = AUDIT_EOE) =
        order.map (fun i => (calls i).eoe) ∧
      s.fired = order.map fun i => (calls i).assembled) ∧
    ∀ i, s.audit_trace_context[(calls i).audit_id]? =
      (calls i).unfinished (group AuditEventRecord.audit_id s.delivered (calls i).audit_id) := by
  intro s
  have hstream := Streamed.of_merge hids hmerge
  have hdelivers : Delivers part audit_allow_selinux_events unhex executable_path s :=
    Delivers.initial.foldl actions
  have hprefix : s.delivered <+: stream := by
    refine List.IsPrefix.trans ⟨s.processed_events ++ (s.parser.records ++
      records part audit_allow_selinux_events s.unparsed), ?_⟩ hreceived
    rw [← List.append_assoc, ← List.append_assoc]
    exact hdelivers.stream
  have hnew : ∀ i, (∅ : AuditTraceContext)[(calls i).audit_id]? = none := fun i =>
    Std.ExtTreeMap.getElem?_empty
  obtain ⟨rest, hrest⟩ := hprefix
  have hassembled := (Assembled.start hnew).processBatches hstream _ s.batches hrest
    (forall_batches_foldl (P := fun time => ∀ i, time - eventTimestamp (calls i).audit_id < 300)
      (fun _ hmem => absurd hmem List.not_mem_nil) actions hage)
  rw [hdelivers.assembled] at hassembled
  refine ⟨?_, hassembled.unfinished⟩
  obtain ⟨order, horder, hfired⟩ := hassembled.emitted
  refine ⟨order, ?_, horder, hfired⟩
  have hwhole : [] ++ (stream ++ []) = stream := List.append_nil _
  obtain ⟨all, hall, -⟩ := ((Assembled.start hnew).foldl hstream stream hwhole).emitted
  have hmap : order.map (fun i => (calls i).eoe) <+: all.map fun i => (calls i).eoe := by
    rw [← horder, ← hall]
    exact List.IsPrefix.filter _ ⟨rest, hrest⟩
  have hsublist := ((List.prefix_map_iff_of_injective (eoe_injective hids)).mp hmap).sublist
  exact (nodup_of_streamed hstream hall).1.sublist hsublist

/-! ### One call -/

def syscallReply : AuditReply where
  type := AUDIT_SYSCALL
  message := ("audit(1501323932.710:1): exe=\"/bin/ls\" syscall=2 pid=7 ppid=1 uid=0 euid=0 " ++
    "gid=0 egid=0 success=yes").toList
  len_lt := by decide

def eoeReply : AuditReply where
  type := AUDIT_EOE
  message := "audit(1501323932.710:1): ".toList
  len_lt := by decide

/-- The call of the two messages. -/
def listing : AuditedCall noHex "/usr/bin/osqueryd" where
  audit_id := "1501323932.710:1"
  syscall := ⟨AUDIT_SYSCALL, 1501323932, "1501323932.710:1", sampleFields, ""⟩
  attached := []
  eoe := ⟨AUDIT_EOE, 1501323932, "1501323932.710:1", ∅, ""⟩
  ids := by simp
  accepted :=
    have haccepted := (sampleCall "1501323932.710:1").accepted
    ⟨haccepted.exe, haccepted.success, haccepted.integers⟩
  syscall_type := rfl
  attached_type := nofun
  eoe_type := rfl

def listingActions : List Action :=
  [.receive syscallReply, .receive eoeReply, .queueReplies, .checkInterrupted, .takeReplies, .parse,
    .beginWait, .parse, .save, .endWait false, .run 1501323940]

theorem records_listing :
    records clampedPart false (listingActions.foldl
      (step clampedPart false noHex "/usr/bin/osqueryd") {}).received = listing.records := by
  decide +kernel

theorem fired_in_order_listing :
    let s := listingActions.foldl (step clampedPart false noHex "/usr/bin/osqueryd") {}
    (∃ order : List Unit, order.Nodup ∧
      (s.delivered.filter fun record => record.type = AUDIT_EOE) =
        order.map (fun _ => listing.eoe) ∧
      s.fired = order.map fun _ => listing.assembled) ∧
    ∀ _ : Unit, s.audit_trace_context[listing.audit_id]? =
      listing.unfinished (group AuditEventRecord.audit_id s.delivered listing.audit_id) := by
  refine fired_in_order clampedPart false (fun _ : Unit => listing) (fun _ _ _ => rfl)
    listing.records ?_ listingActions ?_ ?_
  · apply Merge.cons () rfl
    apply Merge.cons () rfl
    exact Merge.nil fun _ => rfl
  · rw [records_listing]
  · intro current_time hrun _
    have htime : eventTimestamp listing.audit_id = 1501323932 := by decide
    have hcurrent : current_time = 1501323940 := by simpa [listingActions] using hrun
    simp [htime, hcurrent]

end AuditPipeline

end Osquery.EventPublishers
