import Osquery.DifferentialQueries.Events
import Osquery.Core.Conversions
import Osquery.Core.Status

/-!
# Logging the results of a query

The lines of a log item are delivered one after another, each to all loggers of a list that is
separated by commas. A delivery has a status, and the status of the last one is that of the call.

## Implementation notes

What a delivery returns is an input, by the number of the delivery in its call. The counters of
the monitoring are left out.
-/

namespace Osquery.Logger

open Foundation.JsonText Core DifferentialQueries Core.Conversions

/-- What a logger is asked to do: by its plugin, or by a call through the registry. -/
inductive Delivery
  | logString (message : String)
  | logSnapshot (message : String)
  | call (request : List (String × String))

/-- The flags, the registry and what the deliveries return. -/
structure LoggingHost where
  disable_logging : Bool
  logger_event_type : Bool
  logger_snapshot_event_type : Bool
  decorations_top_level : Bool
  existsLocal : String → Bool
  respond : ℕ → String → Delivery → Status

/-- The status of a call, and the number of deliveries so far. -/
structure Logging where
  status : Status
  deliveries : ℕ

/-- The status that a failure to serialize is reported with. -/
def failureStatus : ReadFailure → Status
  | .status message => ⟨1, message⟩
  | .mistyped => ⟨1, ""⟩

namespace LoggingHost

variable (host : LoggingHost)

def stringDelivery (message category logger : String) : Delivery :=
  if host.existsLocal logger then .logString message
  else .call [("string", message), ("category", category)]

def snapshotDelivery (message logger : String) : Delivery :=
  if host.existsLocal logger then .logSnapshot message else .call [("snapshot", message)]

/-- The loop over the loggers of one line. -/
def deliverTo (delivery : String → Delivery) (loggers : List String) (l : Logging) : Logging :=
  loggers.foldl
    (fun l logger => ⟨host.respond l.deliveries logger (delivery logger), l.deliveries + 1⟩) l

/-- The call for one line, which starts with a status of its own. -/
def logString (message category receiver : String) (deliveries : ℕ) : Logging :=
  if host.disable_logging then ⟨⟨0, "Logging disabled"⟩, deliveries⟩
  else
    host.deliverTo (host.stringDelivery message category) (split receiver ",")
      ⟨Status.success, deliveries⟩

/-- The lines of an item: one, or one for each of its changes. -/
def serializeItems (json : JsonLibrary) (event_type : Bool) (item : QueryLogItem) :
    Except ReadFailure (List String) :=
  if event_type then serializeQueryLogItemAsEventsJSON json host.decorations_top_level item
  else .ok [serializeQueryLogItemJSON json host.decorations_top_level item]

def logQueryLogItem (json : JsonLibrary) (item : QueryLogItem) (receiver : String) : Logging :=
  if host.disable_logging then ⟨⟨0, "Logging disabled"⟩, 0⟩
  else
    match host.serializeItems json host.logger_event_type item with
    | .error failure => ⟨failureStatus failure, 0⟩
    | .ok json_items =>
        json_items.foldl (fun l line => host.logString line "event" receiver l.deliveries)
          ⟨Status.success, 0⟩

def logSnapshotQuery (json : JsonLibrary) (item : QueryLogItem) (active : String) : Logging :=
  if host.disable_logging then ⟨⟨0, "Logging disabled"⟩, 0⟩
  else
    match host.serializeItems json host.logger_snapshot_event_type item with
    | .error failure => ⟨failureStatus failure, 0⟩
    | .ok json_items =>
        json_items.foldl
          (fun l line => host.deliverTo (host.snapshotDelivery line) (split active ",") l)
          ⟨Status.success, 0⟩

/-! ### Lines and loggers -/

/-- The lines that a call has for the loggers. -/
def lines (json : JsonLibrary) (event_type : Bool) (item : QueryLogItem) : List String :=
  if host.disable_logging then []
  else
    match host.serializeItems json event_type item with
    | .error _ => []
    | .ok json_items => json_items

/-- Every line for every logger, each with its delivery. -/
def deliveries (delivery : String → String → Delivery) (lines loggers : List String) :
    List (String × Delivery) :=
  lines.flatMap fun line => loggers.map fun logger => (logger, delivery line logger)

/-- What deliveries return from a number on. -/
def responses : ℕ → List (String × Delivery) → List Status
  | _, [] => []
  | n, entry :: entries => host.respond n entry.1 entry.2 :: responses (n + 1) entries

/-- A call that returns this status reports success only if every delivery succeeded. -/
def SucceedsOnlyIfAccepted (status : Status) (entries : List (String × Delivery)) : Prop :=
  status.ok = true → ∀ response ∈ host.responses 0 entries, response.ok = true

/-- If any logger refuses a line, the last logger refuses the last line. -/
def LastRefuses (entries : List (String × Delivery)) : Prop :=
  (∃ response ∈ host.responses 0 entries, response.ok = false) →
    ∃ last ∈ (host.responses 0 entries).getLast?, last.ok = false

theorem responses_append (n : ℕ) (entries entries' : List (String × Delivery)) :
    host.responses n (entries ++ entries') =
      host.responses n entries ++ host.responses (n + entries.length) entries' := by
  induction entries generalizing n with
  | nil => rfl
  | cons entry entries ih =>
      rw [List.cons_append, responses, responses, ih, List.length_cons, List.cons_append,
        Nat.add_right_comm, Nat.add_assoc]

theorem deliverTo_eq (delivery : String → Delivery) (loggers : List String) (l : Logging) :
    host.deliverTo delivery loggers l =
      ⟨(host.responses l.deliveries (loggers.map fun logger => (logger, delivery logger))).getLastD
        l.status, l.deliveries + loggers.length⟩ := by
  induction loggers generalizing l with
  | nil => rfl
  | cons logger loggers ih =>
      have hstep : host.deliverTo delivery (logger :: loggers) l =
          host.deliverTo delivery loggers
            ⟨host.respond l.deliveries logger (delivery logger), l.deliveries + 1⟩ := rfl
      rw [hstep, ih, List.map_cons, responses, List.getLastD_cons, List.length_cons]
      simp only [Logging.mk.injEq, true_and]
      omega

/-- The last response decides, whether the call of a line goes on with the status or starts anew. -/
theorem ok_foldl {delivery : String → String → Delivery} {loggers : List String}
    {call : Logging → String → Logging} (lines : List String) {l : Logging}
    (hcall : ∀ (l : Logging) (line : String), l.status.ok = true ∨ loggers ≠ [] →
      (call l line).deliveries = l.deliveries + loggers.length ∧
        (call l line).status.ok = ((host.responses l.deliveries
          (loggers.map fun logger => (logger, delivery line logger))).getLastD l.status).ok)
    (hl : l.status.ok = true ∨ loggers ≠ []) :
    (lines.foldl call l).status.ok =
      ((host.responses l.deliveries (deliveries delivery lines loggers)).getLastD l.status).ok := by
  induction lines generalizing l with
  | nil => rfl
  | cons line lines ih =>
      obtain ⟨hdeliveries, hstatus⟩ := hcall l line hl
      have hnext : (call l line).status.ok = true ∨ loggers ≠ [] := by
        rcases hl with hok | hne
        · by_cases hempty : loggers = []
          · rw [hstatus, hempty]
            exact Or.inl hok
          · exact Or.inr hempty
        · exact Or.inr hne
      have hsplit : deliveries delivery (line :: lines) loggers =
          (loggers.map fun logger => (logger, delivery line logger)) ++
            deliveries delivery lines loggers := rfl
      rw [List.foldl_cons, ih hnext, hsplit, responses_append, List.length_map, hdeliveries]
      rcases List.eq_nil_or_concat
        (host.responses (l.deliveries + loggers.length) (deliveries delivery lines loggers)) with
        hnil | ⟨init, last, hlast⟩
      · rw [hnil, List.append_nil]
        exact hstatus
      · rw [hlast, List.concat_eq_append, ← List.append_assoc, List.getLastD_concat,
          List.getLastD_concat]

/-- A status that is the last response hides the others, and only those. -/
theorem succeedsOnlyIfAccepted_iff {status : Status} {entries : List (String × Delivery)}
    (h : entries = [] ∨
      status.ok = ((host.responses 0 entries).getLastD Status.success).ok) :
    host.SucceedsOnlyIfAccepted status entries ↔ host.LastRefuses entries := by
  rcases h with rfl | h
  · simp [SucceedsOnlyIfAccepted, LastRefuses, responses]
  · rw [SucceedsOnlyIfAccepted, LastRefuses, h]
    rcases List.eq_nil_or_concat (host.responses 0 entries) with hnil | ⟨init, last, hlast⟩
    · simp [hnil]
    · rw [hlast, List.concat_eq_append, List.getLastD_concat, List.getLast?_concat]
      constructor
      · rintro hall ⟨response, hresponse, hrefused⟩
        refine ⟨last, rfl, Bool.eq_false_iff.mpr fun hok => ?_⟩
        rw [hall hok response hresponse] at hrefused
        exact absurd hrefused Bool.noConfusion
      · intro hrefuses hok response hresponse
        by_contra hrefused
        obtain ⟨_, ⟨rfl⟩, hlastRefused⟩ :=
          hrefuses ⟨response, hresponse, Bool.eq_false_iff.mpr hrefused⟩
        rw [hok] at hlastRefused
        exact absurd hlastRefused Bool.noConfusion

/-! ### Both calls -/

variable (json : JsonLibrary) (item : QueryLogItem)

/-- The deliveries of `logQueryLogItem`. -/
def resultDeliveries (receiver : String) : List (String × Delivery) :=
  deliveries (fun line => host.stringDelivery line "event")
    (host.lines json host.logger_event_type item) (split receiver ",")

/-- The deliveries of `logSnapshotQuery`. -/
def snapshotDeliveries (active : String) : List (String × Delivery) :=
  deliveries host.snapshotDelivery (host.lines json host.logger_snapshot_event_type item)
    (split active ",")

theorem logQueryLogItem_status (receiver : String) :
    host.resultDeliveries json item receiver = [] ∨
      (host.logQueryLogItem json item receiver).status.ok =
        ((host.responses 0 (host.resultDeliveries json item receiver)).getLastD
          Status.success).ok := by
  rw [resultDeliveries, logQueryLogItem, lines]
  cases hdisabled : host.disable_logging with
  | true => exact Or.inl rfl
  | false =>
      cases hitems : host.serializeItems json host.logger_event_type item with
      | error failure => exact Or.inl rfl
      | ok json_items =>
          refine Or.inr (host.ok_foldl json_items (fun l line hl => ?_) (Or.inl rfl))
          rw [logString, hdisabled, if_neg Bool.noConfusion, deliverTo_eq]
          refine ⟨rfl, ?_⟩
          rcases hl with hok | hne
          · cases hloggers : split receiver "," with
            | nil => exact hok.symm
            | cons logger loggers => rfl
          · obtain ⟨logger, loggers, hloggers⟩ := List.exists_cons_of_ne_nil hne
            rw [hloggers]
            rfl

theorem logSnapshotQuery_status (active : String) :
    host.snapshotDeliveries json item active = [] ∨
      (host.logSnapshotQuery json item active).status.ok =
        ((host.responses 0 (host.snapshotDeliveries json item active)).getLastD
          Status.success).ok := by
  rw [snapshotDeliveries, logSnapshotQuery, lines]
  cases hdisabled : host.disable_logging with
  | true => exact Or.inl rfl
  | false =>
      cases hitems : host.serializeItems json host.logger_snapshot_event_type item with
      | error failure => exact Or.inl rfl
      | ok json_items =>
          refine Or.inr (host.ok_foldl json_items (fun l line _ => ?_) (Or.inl rfl))
          rw [deliverTo_eq]
          exact ⟨rfl, rfl⟩

/-- A call succeeds only if every logger accepted every line, exactly when a refusal by any logger
comes with one by the last logger of the last line. -/
theorem logging_succeedsOnlyIfAccepted_iff (receiver : String) :
    (host.SucceedsOnlyIfAccepted (host.logQueryLogItem json item receiver).status
        (host.resultDeliveries json item receiver) ↔
      host.LastRefuses (host.resultDeliveries json item receiver)) ∧
    (host.SucceedsOnlyIfAccepted (host.logSnapshotQuery json item receiver).status
        (host.snapshotDeliveries json item receiver) ↔
      host.LastRefuses (host.snapshotDeliveries json item receiver)) :=
  ⟨host.succeedsOnlyIfAccepted_iff (host.logQueryLogItem_status json item receiver),
    host.succeedsOnlyIfAccepted_iff (host.logSnapshotQuery_status json item receiver)⟩

/-- The directory of the logs is not available, and the other logger has no trouble. -/
def fullDisk : LoggingHost where
  disable_logging := false
  logger_event_type := false
  logger_snapshot_event_type := false
  decorations_top_level := false
  existsLocal _ := true
  respond _ logger _ := if logger = "filesystem" then ⟨1, "Could not write"⟩ else Status.success

def usersItem : QueryLogItem where
  name := "users"
  results := { added := [(∅ : Core.Rows.Row).insert "username" "root"] }

def usersSnapshot : QueryLogItem where
  name := "users"
  snapshot_results := [(∅ : Core.Rows.Row).insert "username" "root"]

theorem not_succeedsOnlyIfAccepted_fullDisk :
    ¬ fullDisk.SucceedsOnlyIfAccepted
        (fullDisk.logQueryLogItem reference usersItem "filesystem,tls").status
        (fullDisk.resultDeliveries reference usersItem "filesystem,tls") ∧
    ¬ fullDisk.SucceedsOnlyIfAccepted
        (fullDisk.logSnapshotQuery reference usersSnapshot "filesystem,tls").status
        (fullDisk.snapshotDeliveries reference usersSnapshot "filesystem,tls") := by
  have hsplit : split "filesystem,tls" "," = ["filesystem", "tls"] := by decide +kernel
  constructor
  · intro h
    have hall := h (by simp [logQueryLogItem, serializeItems, logString, deliverTo, hsplit,
      fullDisk, Status.ok, Status.success])
    simp [resultDeliveries, deliveries, lines, serializeItems, hsplit, responses, fullDisk,
      Status.ok] at hall
  · intro h
    have hall := h (by simp [logSnapshotQuery, serializeItems, deliverTo, hsplit, fullDisk,
      Status.ok, Status.success])
    simp [snapshotDeliveries, deliveries, lines, serializeItems, hsplit, responses, fullDisk,
      Status.ok] at hall

end LoggingHost

end Osquery.Logger
