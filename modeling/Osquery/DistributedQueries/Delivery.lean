import Osquery.DistributedQueries.Queue
import Osquery.Foundation.Custody

/-!
# Distributed work is neither lost nor duplicated

An accepted query is pending until it is taken out of the store, executing until its
result is kept, completed until its result is written, and delivered from then on.
Queries leave the store in the order in which they are delivered: the ids that were
taken out are those of the written documents, of the kept results and of the query
that is executing, in this order.

## Implementation notes

The results of a successful write do not count as unsent between the write and the
clearing. The queue of the ledger is the store; what leaves it is what was popped.
-/

namespace Osquery.DistributedQueries

open Foundation.JsonText Foundation.Custody Core.BackingStore Core.Rows Config

/-- The ids whose results a document reports. -/
def reportedIds (doc : Json) : List String := (entriesOf "queries" doc).map Prod.fst

/-- What an accepted query is waiting for. -/
inductive Stage
  | pending
  | executing
  | completed
  | delivered

namespace Distributed

/-- The results that no successful write has reported. -/
def unsent (s : Distributed) : List DistributedQueryResult :=
  match s.phase with
  | .written => []
  | _ => s.results

/-- The ids that the successful writes reported. -/
def deliveredIds (s : Distributed) : List String := s.delivered.flatMap reportedIds

def At (s : Distributed) (id : String) : Stage → Prop
  | .pending => (lookup s.db kQueries (queryKey id)).isSome = true
  | .executing => ∃ request, s.phase = .executing request ∧ request.id = id
  | .completed => ∃ result ∈ s.unsent, result.request.id = id
  | .delivered => id ∈ s.deliveredIds

end Distributed

def Action.request? : Action → Option DistributedQueryRequest
  | .accept request => some request
  | _ => none

/-- The ids that are accepted in a run. -/
def acceptedIds (actions : List Action) : List String :=
  (actions.filterMap Action.request?).map DistributedQueryRequest.id

/-! ### The documents of the results -/

theorem addMember_of_new {members : List (String × Json)} {key : String}
    (h : key ∉ members.map Prod.fst) (value : Json) :
    addMember members key value = members ++ [(key, value)] := by
  have hnone : members.findIdx? (fun m => m.1 == key) = none := by
    rw [List.findIdx?_eq_none_iff]
    intro m hm
    simp only [beq_eq_false_iff_ne, ne_eq]
    rintro rfl
    exact h (List.mem_map_of_mem hm)
  simp [addMember, hnone]

/-- Results of distinct queries are all reported, in their order. -/
theorem reportedIds_resultsDocument (results : List DistributedQueryResult)
    (h : (results.map fun result => result.request.id).Nodup) :
    reportedIds (resultsDocument results) = results.map fun result => result.request.id := by
  have hfold : ∀ (results : List DistributedQueryResult) (queries statuses : List (String × Json)),
      (queries.map Prod.fst ++ results.map fun result => result.request.id).Nodup →
        (results.foldl (fun objects result =>
          (addMember objects.1 result.request.id
              (.arr (serializeQueryData result.results result.columns [])),
            addMember objects.2 result.request.id (.int result.status.code)))
          (queries, statuses)).1.map Prod.fst =
            queries.map Prod.fst ++ results.map fun result => result.request.id := by
    intro results
    induction results with
    | nil => simp
    | cons result rest ih =>
        intro queries statuses hnodup
        rw [List.map_cons, List.append_cons] at hnodup
        have hnew : result.request.id ∉ queries.map Prod.fst := by
          have hleft := (List.nodup_append.mp (List.nodup_append.mp hnodup).1).2.2
          exact fun hmem => hleft _ hmem _ (List.mem_singleton_self _) rfl
        rw [List.foldl_cons, addMember_of_new hnew, ih _ _ (by simpa using hnodup)]
        simp
  have hqueries := hfold results [] [] (by simpa using h)
  rw [reportedIds, entriesOf, resultsDocument]
  simpa [member?] using hqueries

/-! ### The invariant -/

/-- What the phase knows about the store. -/
def Phase.Knows (db : Database) : Phase → Prop
  | .reading next => next ∈ pendingKeys db
  | .deleting next _ => next ∈ pendingKeys db
  | _ => True

/-- The id of the query that is executing. -/
def Phase.executingIds : Phase → List String
  | .executing request => [request.id]
  | _ => []

namespace Distributed

def ledger (s : Distributed) : Ledger String :=
  ⟨s.accepted.map DistributedQueryRequest.id, s.popped.map idOf, []⟩

/-- The store holds the accepted ids that were not popped, and what was popped is
delivered, completed or executing, in this order. -/
structure Kept (s : Distributed) : Prop where
  tracks : s.ledger.Tracks (fun id => (lookup s.db kQueries (queryKey id)).isSome = true) []
  popped : s.popped.map idOf =
    s.deliveredIds ++ (s.unsent.map fun result => result.request.id) ++ s.phase.executingIds
  knows : s.phase.Knows s.db

namespace Kept

variable {s : Distributed}

theorem new {db : Database} (h : pendingKeys db = []) : Kept (.new db) := by
  constructor
  · refine ⟨⟨List.nodup_nil, List.nodup_nil, fun _ hk => absurd hk List.not_mem_nil⟩, ?_,
      fun _ hk => absurd hk List.not_mem_nil, List.nodup_nil⟩
    intro id
    constructor
    · intro hid
      have hmem : queryKey id ∈ pendingKeys db := mem_pendingKeys.mpr ⟨hid, prefix_queryKey id⟩
      rw [h] at hmem
      exact absurd hmem List.not_mem_nil
    · rintro (⟨hlogged, -⟩ | hpending)
      · exact absurd hlogged List.not_mem_nil
      · exact absurd hpending List.not_mem_nil
  · rfl
  · trivial

theorem nodup_popped (h : s.Kept) : (s.popped.map idOf).Nodup := by
  have hgone := h.tracks.balanced.nodup_gone
  rwa [ledger, Ledger.gone, List.append_nil] at hgone

/-- Only what the queries domain holds matters. -/
theorem setDatabase (h : s.Kept) {db : Database}
    (hdb : ∀ key, lookup db kQueries key = lookup s.db kQueries key) :
    Kept { s with db := db } := by
  have hkeys : ∀ key, key ∈ pendingKeys db ↔ key ∈ pendingKeys s.db := by
    intro key
    rw [mem_pendingKeys, mem_pendingKeys, hdb]
  obtain ⟨tracks, popped, knows⟩ := h
  refine ⟨?_, popped, ?_⟩
  · refine ⟨tracks.balanced, ?_, tracks.gone_of_pending, tracks.nodup_pending⟩
    intro id
    rw [hdb]
    exact tracks.present_iff id
  · change s.phase.Knows db
    cases hphase : s.phase with
    | reading next =>
        rw [hphase] at knows
        exact (hkeys next).mpr knows
    | deleting next query =>
        rw [hphase] at knows
        exact (hkeys next).mpr knows
    | _ => trivial

theorem accelerate (h : s.Kept) (now : ℕ) (doc : Json) :
    Kept (DistributedQueries.accelerate now doc s) := by
  rw [DistributedQueries.accelerate]
  split
  · split
    · apply h.setDatabase
      intro key
      simp [kPersistentSettings, kQueries]
    · exact h
  · exact h

theorem accept (h : s.Kept) {request : DistributedQueryRequest}
    (hnew : request.id ∉ s.ledger.logged) : Kept (DistributedQueries.accept request s) := by
  have hledger : (DistributedQueries.accept request s).ledger = s.ledger.log request.id := by
    simp [ledger, DistributedQueries.accept, Ledger.log]
  have hlookup : ∀ key, lookup (DistributedQueries.accept request s).db kQueries key =
      if queryKey request.id = key then some request.query else lookup s.db kQueries key := by
    intro key
    simp [DistributedQueries.accept]
  constructor
  · rw [hledger]
    apply h.tracks.log hnew
    intro id
    rw [hlookup]
    by_cases hid : queryKey request.id = queryKey id
    · simp [(queryKey_inj hid).symm]
    · have hne : id ≠ request.id := fun heq => hid (heq ▸ rfl)
      simp [hid, hne]
  · exact h.popped
  · have hkeep : ∀ key ∈ pendingKeys s.db,
        key ∈ pendingKeys (DistributedQueries.accept request s).db := by
      intro key hkey
      obtain ⟨hstored, hbegins⟩ := mem_pendingKeys.mp hkey
      apply mem_pendingKeys.mpr
      refine ⟨?_, hbegins⟩
      rw [hlookup]
      split
      · rfl
      · exact hstored
    have hknows := h.knows
    change s.phase.Knows _
    cases hphase : s.phase with
    | reading next =>
        rw [hphase] at hknows
        exact hkeep next hknows
    | deleting next query =>
        rw [hphase] at hknows
        exact hkeep next hknows
    | _ => trivial

/-- Deleting a pending key takes its query out of the queue. -/
theorem tracks_pop (h : s.Kept) {next : String} (hnext : next ∈ pendingKeys s.db) :
    (s.ledger.send [idOf next]).Tracks
      (fun id => (lookup (Ephemeral.remove s.db kQueries next) kQueries
        (queryKey id)).isSome = true) [] := by
  obtain ⟨hstored, hbegins⟩ := mem_pendingKeys.mp hnext
  have hkey : queryKey (idOf next) = next := queryKey_idOf hbegins
  have hheld : s.ledger.Held (idOf next) := by
    apply h.tracks.held_iff.mpr
    refine ⟨?_, List.not_mem_nil⟩
    rw [hkey]
    exact hstored
  have hsend := h.tracks.send (List.nodup_singleton (idOf next))
    fun id hid => List.mem_singleton.mp hid ▸ hheld
  apply hsend.remove
  intro id
  rw [lookup_remove]
  by_cases hid : id = idOf next
  · simp [hid, hkey]
  · have hne : next ≠ queryKey id := fun heq => hid (by rw [heq, idOf_queryKey])
    simp [hid, hne]

theorem advance (h : s.Kept) (outcome : SQL) : Kept (DistributedQueries.advance outcome s) := by
  obtain ⟨db, results, currentRequestId, phase, accepted, keys, delivered⟩ := s
  cases phase with
  | idle =>
      simp only [DistributedQueries.advance]
      split
      · exact h
      · rename_i next rest hkeys
        refine ⟨h.tracks, h.popped, ?_⟩
        change next ∈ pendingKeys db
        rw [hkeys]
        exact List.mem_cons_self
  | reading next => exact ⟨h.tracks, h.popped, h.knows⟩
  | deleting next query =>
      have htracks := h.tracks_pop h.knows
      have hpopped := h.popped
      refine ⟨?_, ?_, trivial⟩
      · simp only [DistributedQueries.advance, ledger, List.map_append]
        exact htracks
      · simp only [unsent, Phase.executingIds, List.append_nil] at hpopped
        simp only [DistributedQueries.advance, List.map_append, hpopped]
        rfl
  | executing request =>
      refine ⟨h.tracks, ?_, trivial⟩
      have hpopped := h.popped
      simp only [unsent, Phase.executingIds, List.append_assoc] at hpopped
      simp only [DistributedQueries.advance, unsent, Phase.executingIds, List.map_append,
        List.append_nil, hpopped]
      rfl
  | written => exact ⟨h.tracks, h.popped, trivial⟩

theorem flush (h : s.Kept) (isWritten : Bool) : Kept (DistributedQueries.flush isWritten s) := by
  rw [DistributedQueries.flush]
  split
  · rename_i hphase
    split
    · refine ⟨h.tracks, ?_, trivial⟩
      have hpopped := h.popped
      have hnodup := h.nodup_popped
      simp only [unsent, hphase, Phase.executingIds, List.append_nil] at hpopped
      rw [hpopped] at hnodup
      have hreported := reportedIds_resultsDocument s.results (List.nodup_append.mp hnodup).2.1
      simp [deliveredIds, unsent, Phase.executingIds, hpopped, hreported]
    · exact h
  · exact h

end Kept

end Distributed

/-! ### Runs -/

section Runs

open Distributed

variable {s : Distributed}

/-- A step accepts the query that its action names. -/
theorem logged_step (s : Distributed) (action : Action) :
    (step s action).ledger.logged =
      s.ledger.logged ++ (action.request?.toList.map DistributedQueryRequest.id) := by
  cases action with
  | accept request => simp [step, ledger, accept, Action.request?]
  | accelerate now doc =>
      simp only [step, accelerate, Action.request?, Option.toList_none, List.map_nil,
        List.append_nil]
      split
      · split <;> rfl
      · rfl
  | runQueries outcome =>
      obtain ⟨db, results, currentRequestId, phase, accepted, keys, delivered⟩ := s
      simp only [step, Action.request?, Option.toList_none, List.map_nil, List.append_nil]
      cases phase with
      | idle =>
          simp only [advance]
          split <;> rfl
      | _ => rfl
  | flush isWritten =>
      simp only [step, flush, Action.request?, Option.toList_none, List.map_nil, List.append_nil]
      split
      · split <;> rfl
      · rfl

theorem Distributed.Kept.step (h : s.Kept) {action : Action}
    (hnew : ∀ request, action.request? = some request → request.id ∉ s.ledger.logged) :
    Kept (DistributedQueries.step s action) := by
  cases action with
  | accept request => exact h.accept (hnew request rfl)
  | accelerate now doc => exact h.accelerate now doc
  | runQueries outcome => exact h.advance outcome
  | flush isWritten => exact h.flush isWritten

/-- Runs that accept every id once keep the invariant. -/
theorem kept_run (h : s.Kept) {actions : List Action}
    (hdistinct : (s.ledger.logged ++ acceptedIds actions).Nodup) :
    (run actions s).Kept ∧
      (run actions s).ledger.logged = s.ledger.logged ++ acceptedIds actions := by
  induction actions generalizing s with
  | nil => exact ⟨h, (List.append_nil _).symm⟩
  | cons action actions ih =>
      have hids : acceptedIds (action :: actions) =
          action.request?.toList.map DistributedQueryRequest.id ++ acceptedIds actions := by
        cases action <;> rfl
      rw [hids, ← List.append_assoc, ← logged_step] at hdistinct
      have hnew : ∀ request, action.request? = some request → request.id ∉ s.ledger.logged := by
        intro request hrequest hmem
        have hnodup := (List.nodup_append.mp hdistinct).1
        rw [logged_step, hrequest] at hnodup
        exact (List.nodup_append.mp hnodup).2.2 _ hmem _ (List.mem_singleton_self _) rfl
      obtain ⟨hkept, hlogged⟩ := ih (h.step hnew) hdistinct
      refine ⟨hkept, ?_⟩
      rw [run_cons, hlogged, logged_step, hids, List.append_assoc]

theorem Distributed.at_executing (s : Distributed) (id : String) :
    s.At id .executing ↔ id ∈ s.phase.executingIds := by
  cases hphase : s.phase <;> simp [At, hphase, Phase.executingIds, eq_comm]

/-- Stages that exclude each other, of which the first is what is left. -/
theorem existsUnique_stage {p : Stage → Prop}
    (hpending : p .pending ↔ ¬((p .delivered ∨ p .completed) ∨ p .executing))
    (hboth : ¬(p .delivered ∧ p .completed))
    (hexecuting : p .executing → ¬p .delivered ∧ ¬p .completed) : ∃! stage, p stage := by
  by_cases hd : p .delivered
  · refine ⟨.delivered, hd, ?_⟩
    rintro (_ | _ | _ | _) hstage <;> tauto
  · by_cases hc : p .completed
    · refine ⟨.completed, hc, ?_⟩
      rintro (_ | _ | _ | _) hstage <;> tauto
    · by_cases he : p .executing
      · refine ⟨.executing, he, ?_⟩
        rintro (_ | _ | _ | _) hstage <;> tauto
      · refine ⟨.pending, by tauto, ?_⟩
        rintro (_ | _ | _ | _) hstage <;> tauto

/-- What was accepted is at exactly one stage, and no id is delivered twice. -/
theorem Distributed.Kept.accounted (h : s.Kept) {id : String} (hid : id ∈ s.ledger.logged) :
    (∃! stage, s.At id stage) ∧ s.deliveredIds.count id ≤ 1 := by
  have hnodup := h.nodup_popped
  rw [h.popped] at hnodup
  have hpresent : s.At id .pending ↔ id ∉ s.popped.map idOf := by
    rw [← List.append_nil (s.popped.map idOf)]
    constructor
    · exact fun hstored => (h.tracks.held_iff.mpr ⟨hstored, List.not_mem_nil⟩).2
    · exact fun hgone => (h.tracks.held_iff.mp ⟨hid, hgone⟩).1
  have hexecuting := s.at_executing id
  have hcompleted : s.At id .completed ↔ id ∈ s.unsent.map fun result => result.request.id := by
    simp [At, List.mem_map]
  have hdelivered : s.At id .delivered ↔ id ∈ s.deliveredIds := Iff.rfl
  obtain ⟨hfirst, -, hlast⟩ := List.nodup_append.mp hnodup
  obtain ⟨honce, -, hmiddle⟩ := List.nodup_append.mp hfirst
  have hnotBoth : ¬(s.At id .delivered ∧ s.At id .completed) := by
    rw [hdelivered, hcompleted]
    exact fun hboth => hmiddle id hboth.1 id hboth.2 rfl
  have hnotExecuting : s.At id .executing → ¬s.At id .delivered ∧ ¬s.At id .completed := by
    rw [hexecuting, hdelivered, hcompleted]
    intro hmem
    exact ⟨fun hd => hlast id (List.mem_append_left _ hd) id hmem rfl,
      fun hc => hlast id (List.mem_append_right _ hc) id hmem rfl⟩
  rw [h.popped, List.mem_append, List.mem_append, ← hexecuting, ← hcompleted, ← hdelivered]
    at hpresent
  exact ⟨existsUnique_stage hpresent hnotBoth hnotExecuting,
    List.nodup_iff_count_le_one.mp honce id⟩

end Runs

/-- In every run that accepts distinct ids into an empty queue, an accepted query is
pending, executing, completed or delivered, only one of these, and it is delivered by
one write. -/
theorem delivered_exactly_once {db : Database} (hempty : pendingKeys db = [])
    {actions : List Action} (hdistinct : (acceptedIds actions).Nodup) {id : String}
    (hid : id ∈ acceptedIds actions) :
    (∃! stage, (run actions (.new db)).At id stage) ∧
      (run actions (.new db)).deliveredIds.count id ≤ 1 := by
  obtain ⟨hkept, hlogged⟩ := kept_run (Distributed.Kept.new hempty) hdistinct
  apply hkept.accounted
  rw [hlogged]
  exact List.mem_append_right _ hid

/-- Two queries, of which the first is delivered by the second attempt. -/
def twoQueries : List Action :=
  let result : SQL := ⟨.success, [], []⟩
  [.accept ⟨"select 1", "first"⟩, .runQueries result, .runQueries result, .runQueries result,
    .accept ⟨"select 2", "second"⟩, .runQueries result, .flush false, .flush true]

theorem pendingKeys_empty : pendingKeys ∅ = [] := by
  simp [pendingKeys, Ephemeral.scan, Ephemeral.domainOf]

theorem delivered_exactly_once_first :
    (∃! stage, (run twoQueries (.new ∅)).At "first" stage) ∧
      (run twoQueries (.new ∅)).deliveredIds.count "first" ≤ 1 :=
  delivered_exactly_once pendingKeys_empty (by decide) (by decide)

/-- While the query executes it is neither pending nor completed nor delivered. -/
theorem executing_query_nowhere :
    "first" ∈ acceptedIds (twoQueries.take 4) ∧
      ∀ stage ∈ [Stage.pending, .completed, .delivered],
        ¬(run (twoQueries.take 4) (.new ∅)).At "first" stage := by
  have hids : acceptedIds (twoQueries.take 4) = ["first"] := rfl
  have hid : "first" ∈ acceptedIds (twoQueries.take 4) := hids ▸ List.mem_cons_self
  refine ⟨hid, ?_⟩
  have hdistinct :
      ((Distributed.new ∅).ledger.logged ++ acceptedIds (twoQueries.take 4)).Nodup := by
    rw [hids]
    exact List.nodup_singleton "first"
  obtain ⟨hkept, hlogged⟩ := kept_run (Distributed.Kept.new pendingKeys_empty) hdistinct
  have hmem : "first" ∈ (run (twoQueries.take 4) (.new ∅)).ledger.logged := by
    rw [hlogged]
    exact List.mem_append_right _ hid
  have hexecuting : (run (twoQueries.take 4) (.new ∅)).At "first" .executing := by
    rw [Distributed.at_executing]
    decide +kernel
  obtain ⟨stage, -, hunique⟩ := (hkept.accounted hmem).1
  intro other hother hat
  rw [hunique other hat, ← hunique .executing hexecuting] at hother
  simp at hother

end Osquery.DistributedQueries
