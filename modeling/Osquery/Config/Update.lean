import Osquery.Config.History

/-!
# Applying a changed configuration

`Config::update` updates every source of a map and then, if a source changed,
asks the registries and the event factory to configure themselves. That a source
changed is kept in a local variable, which is lost when a later source of the
map cannot be parsed, while the digest of the changed source is already
recorded.

## Implementation notes

The text in effect for each source and the trace of changes and configure steps
are not fields of the program; they record what the property is about. Before
the configuration was loaded nothing is configured here, since the start-up does
so itself. Purging and the backup reach only the database.
-/

namespace Osquery.Config

open Foundation.JsonText Core.Rows

/-! ### State -/

inductive Event
  | changed (source : String)
  | configured
  deriving DecidableEq

/-- The configuration, whether it was loaded, the text in effect for each source
and what happened so far. -/
structure UpdateState where
  config : ConfigState
  loaded : Bool
  active : Std.ExtTreeMap String String
  trace : List Event

abbrev ConfigMap := Std.ExtTreeMap String String

/-- Every change is followed by a configure step. -/
def Settled (trace : List Event) : Prop :=
  ∀ before source after, trace = before ++ Event.changed source :: after →
    Event.configured ∈ after

section Update

variable (env : Environment)

/-- The text in effect for a source after an update of it. -/
def activeAfter (status : UpdateStatus) (u : String × String)
    (active : Std.ExtTreeMap String String) : Std.ExtTreeMap String String :=
  match status with
  | .ok => active.insert u.1 u.2
  | .malformed => active.erase u.1
  | .unchanged => active

/-- The update of one source, recorded in the trace if the text in effect changes. -/
def UpdateState.record (u : String × String) (status : UpdateStatus) (config : ConfigState)
    (st : UpdateState) : UpdateState :=
  { st with
    config
    active := activeAfter status u st.active
    trace :=
      if st.active[u.1]? = (activeAfter status u st.active)[u.1]? then st.trace
      else st.trace ++ [Event.changed u.1] }

/-- The loop over the sources. It ends early at a text that cannot be parsed;
otherwise it returns whether a source changed. -/
def updateSources : List (String × String) → Bool → UpdateState → Option Bool × UpdateState
  | [], needs_reconfigure, st => (some needs_reconfigure, st)
  | u :: rest, needs_reconfigure, st =>
      let updated := updateSource env u.1 u.2 st.config
      let st' := st.record u updated.1 updated.2
      match updated.1 with
      | .unchanged => updateSources rest needs_reconfigure st'
      | .malformed => (none, st')
      | .ok => updateSources rest true st'

/-- An extension forwards the sources to the core first, and stops if the core
rejects one. -/
def update (forwarded : String × String → Bool) (config : ConfigMap) (st : UpdateState) :
    UpdateState :=
  if env.isExternal && !config.toList.all forwarded then st
  else
    match updateSources env config.toList false st with
    | (none, st) => st
    | (some needs_reconfigure, st) =>
        if st.loaded && needs_reconfigure then
          { st with trace := st.trace ++ [Event.configured] }
        else st

end Update

/-! ### Calls that lose no change -/

section Lossless

variable (env : Environment) (st : UpdateState)

/-- The digest recorded for the source is not that of the text. -/
def IsNew (u : String × String) : Prop := st.config.hash.getD u.1 "" ≠ env.digest u.2

/-- A new text that cannot be parsed. -/
def IsBroken (u : String × String) : Prop := IsNew env st u ∧ parseObject env u.2 = none

/-- At the first broken text of the call no source before it is new, and its own
source has no text in effect. -/
def LosslessList (sources : List (String × String)) : Prop :=
  ∀ before u after, sources = before ++ u :: after → IsBroken env st u →
    (∀ v ∈ before, ¬IsBroken env st v) →
      (∀ v ∈ before, ¬IsNew env st v) ∧ st.active[u.1]? = none

def Lossless (config : ConfigMap) : Prop := LosslessList env st config.toList

end Lossless

variable {env : Environment}

/-! ### Digests -/

theorem applyParsers_hash (source : String) (obj : Json) (st : ConfigState) :
    (applyParsers env source obj st).hash = st.hash := by
  rw [applyParsers, optionsUpdate]
  split <;> rfl

theorem addSinglePack_hash (source : String) (st : ConfigState) (entry : String × Json) :
    (addSinglePack env source st entry).hash = st.hash := by
  rw [addSinglePack]
  split
  · rfl
  · simp only
    split
    · rw [applyParsers_hash]
    · rfl

theorem addDocument_hash (source : String) (doc : Json) (st : ConfigState) :
    (addDocument env source doc st).hash = st.hash := by
  have hfold : ∀ (entries : List (String × Json)) (st : ConfigState),
      (entries.foldl (addSinglePack env source) st).hash = st.hash := by
    intro entries
    induction entries with
    | nil => exact fun st => rfl
    | cons entry rest ih =>
        intro st
        rw [List.foldl_cons, ih, addSinglePack_hash]
  rw [addDocument_eq, applyParsers_hash, hfold]

/-- An update touches no digest but that of its source. -/
theorem updateSource_hash {u : String × String} {source : String} (h : source ≠ u.1)
    (st : ConfigState) :
    (updateSource env u.1 u.2 st).2.hash.getD source "" = st.hash.getD source "" := by
  have hinsert : (st.hash.insert u.1 (env.digest u.2)).getD source "" =
      st.hash.getD source "" := by
    rw [Std.ExtTreeMap.getD_insert, if_neg (by simpa using h.symm)]
  rw [updateSource]
  split
  · rfl
  · simp only
    split
    · exact hinsert
    · rw [addDocument_hash]
      exact hinsert

/-! ### What one source does -/

/-- What the update of one source returns. -/
theorem updateSource_status (u : String × String) (st : UpdateState) :
    (¬IsNew env st u ∧ updateSource env u.1 u.2 st.config = (.unchanged, st.config)) ∨
      (IsBroken env st u ∧ (updateSource env u.1 u.2 st.config).1 = .malformed) ∨
      (IsNew env st u ∧ ¬IsBroken env st u ∧ (updateSource env u.1 u.2 st.config).1 = .ok) := by
  by_cases hnew : IsNew env st u
  · right
    have hupdate := hnew
    rw [IsNew] at hupdate
    rw [updateSource, if_neg hupdate]
    cases hdoc : parseObject env u.2 with
    | none => exact Or.inl ⟨⟨hnew, hdoc⟩, rfl⟩
    | some doc =>
        refine Or.inr ⟨hnew, ?_, rfl⟩
        intro hbroken
        rw [hbroken.2] at hdoc
        exact Option.some_ne_none doc hdoc.symm
  · left
    refine ⟨hnew, ?_⟩
    rw [IsNew, not_not] at hnew
    rw [updateSource, if_pos hnew]

theorem UpdateState.record_unchanged (u : String × String) (st : UpdateState) :
    st.record u .unchanged st.config = st := by
  rw [UpdateState.record, activeAfter, if_pos rfl]

/-- Digests of the other sources stay through an update, so these are as new as before. -/
theorem isNew_record {u v : String × String} (h : v.1 ≠ u.1) (status : UpdateStatus)
    (st : UpdateState) :
    IsNew env (st.record u status (updateSource env u.1 u.2 st.config).2) v ↔ IsNew env st v := by
  rw [IsNew, IsNew]
  change (updateSource env u.1 u.2 st.config).2.hash.getD v.1 "" ≠ _ ↔ _
  rw [updateSource_hash h]

theorem not_isBroken_record {u : String × String} {rest : List (String × String)}
    (hu : u.1 ∉ rest.map Prod.fst) {st : UpdateState} (h : ∀ v ∈ rest, ¬IsBroken env st v) :
    ∀ v ∈ rest, ¬IsBroken env (st.record u .ok (updateSource env u.1 u.2 st.config).2) v := by
  intro v hv
  rw [IsBroken, isNew_record fun heq => hu (heq ▸ List.mem_map_of_mem hv)]
  exact h v hv

/-! ### The loop -/

section Loop

variable {u : String × String} {st : UpdateState} (rest : List (String × String)) (needs : Bool)

theorem updateSources_cons_old (h : ¬IsNew env st u) :
    updateSources env (u :: rest) needs st = updateSources env rest needs st := by
  have hupdate : updateSource env u.1 u.2 st.config = (.unchanged, st.config) := by
    rcases updateSource_status u st with ⟨-, heq⟩ | ⟨hbroken, -⟩ | ⟨hnew, -⟩
    · exact heq
    · exact absurd hbroken.1 h
    · exact absurd hnew h
  rw [updateSources, hupdate]
  exact congrArg _ (st.record_unchanged u)

theorem updateSources_cons_broken (h : IsBroken env st u) :
    updateSources env (u :: rest) needs st =
      (none, st.record u .malformed (updateSource env u.1 u.2 st.config).2) := by
  have hupdate : (updateSource env u.1 u.2 st.config).1 = .malformed := by
    rcases updateSource_status u st with ⟨hold, -⟩ | ⟨-, heq⟩ | ⟨-, hu, -⟩
    · exact absurd h.1 hold
    · exact heq
    · exact absurd h hu
  rw [updateSources, hupdate]

theorem updateSources_cons_new (hnew : IsNew env st u) (h : ¬IsBroken env st u) :
    updateSources env (u :: rest) needs st =
      updateSources env rest true
        (st.record u .ok (updateSource env u.1 u.2 st.config).2) := by
  have hupdate : (updateSource env u.1 u.2 st.config).1 = .ok := by
    rcases updateSource_status u st with ⟨hold, -⟩ | ⟨hbroken, -⟩ | ⟨-, -, heq⟩
    · exact absurd hnew hold
    · exact absurd hbroken h
    · exact heq
  rw [updateSources, hupdate]

end Loop

/-- The state stays loaded. -/
theorem updateSources_loaded (sources : List (String × String)) (needs : Bool)
    (st : UpdateState) : (updateSources env sources needs st).2.loaded = st.loaded := by
  induction sources generalizing needs st with
  | nil => rfl
  | cons u rest ih =>
      rw [updateSources]
      split
      · exact ih _ _
      · rfl
      · exact ih _ _

/-- Without a broken text the loop reaches its end. -/
theorem updateSources_ends {sources : List (String × String)}
    (hnodup : (sources.map Prod.fst).Nodup) {st : UpdateState}
    (h : ∀ u ∈ sources, ¬IsBroken env st u) (needs : Bool) :
    ∃ needs', (updateSources env sources needs st).1 = some needs' ∧
      (needs = true → needs' = true) := by
  induction sources generalizing needs st with
  | nil => exact ⟨needs, rfl, id⟩
  | cons u rest ih =>
      rw [List.map_cons, List.nodup_cons] at hnodup
      have hu : ¬IsBroken env st u := h u List.mem_cons_self
      by_cases hnew : IsNew env st u
      · rw [updateSources_cons_new rest needs hnew hu]
        have hrest := not_isBroken_record hnodup.1 (List.forall_mem_cons.mp h).2
        obtain ⟨needs', heq, htrue⟩ := ih hnodup.2 hrest true
        exact ⟨needs', heq, fun _ => htrue rfl⟩
      · rw [updateSources_cons_old rest needs hnew]
        exact ih hnodup.2 (fun v hv => h v (List.mem_cons_of_mem _ hv)) needs

/-- A change is not forgotten by the sources behind it. -/
theorem updateSources_needs (sources : List (String × String)) (st : UpdateState) :
    (updateSources env sources true st).1 ≠ some false := by
  induction sources generalizing st with
  | nil => simp [updateSources]
  | cons u rest ih =>
      rw [updateSources]
      split
      · exact ih _
      · simp
      · exact ih _

/-- A loop that found no change left the state as it was. -/
theorem updateSources_unchanged {sources : List (String × String)} {needs : Bool}
    {st st' : UpdateState} (h : updateSources env sources needs st = (some false, st')) :
    st' = st := by
  induction sources generalizing needs st with
  | nil => exact (Prod.ext_iff.mp h).2.symm
  | cons u rest ih =>
      by_cases hnew : IsNew env st u
      · by_cases hbroken : IsBroken env st u
        · rw [updateSources_cons_broken rest needs hbroken] at h
          exact absurd (Prod.ext_iff.mp h).1.symm (Option.some_ne_none _)
        · rw [updateSources_cons_new rest needs hnew hbroken] at h
          exact absurd (Prod.ext_iff.mp h).1 (updateSources_needs _ _)
      · rw [updateSources_cons_old rest needs hnew] at h
        exact ih h

theorem LosslessList.tail {st : UpdateState} {u : String × String}
    {rest : List (String × String)} (h : LosslessList env st (u :: rest))
    (hu : ¬IsBroken env st u) : LosslessList env st rest := by
  intro before w after heq hbroken hbefore
  obtain ⟨hnew, hactive⟩ := h (u :: before) w after (by rw [heq]; rfl) hbroken
    (List.forall_mem_cons.mpr ⟨hu, hbefore⟩)
  exact ⟨(List.forall_mem_cons.mp hnew).2, hactive⟩

/-- Behind a new text a call without losses has no broken one. -/
theorem LosslessList.not_broken {st : UpdateState} {u : String × String}
    {rest : List (String × String)} (h : LosslessList env st (u :: rest))
    (hnew : IsNew env st u) (hu : ¬IsBroken env st u) : ∀ v ∈ rest, ¬IsBroken env st v := by
  classical
  intro v hv hbroken
  obtain ⟨w, before, after, hbefore, hw, heq, -⟩ := List.exists_of_eraseP
    (p := fun v => decide (IsBroken env st v)) hv (decide_eq_true hbroken)
  have hbefore' : ∀ x ∈ u :: before, ¬IsBroken env st x :=
    List.forall_mem_cons.mpr ⟨hu, fun x hx hx' => hbefore x hx (decide_eq_true hx')⟩
  have hlossless := h (u :: before) w after (by rw [heq]; rfl) (of_decide_eq_true hw) hbefore'
  exact hlossless.1 u List.mem_cons_self hnew

/-- A call without losses that ends early changed nothing. -/
theorem updateSources_lossless {sources : List (String × String)}
    (hnodup : (sources.map Prod.fst).Nodup) {st st' : UpdateState}
    (h : LosslessList env st sources) (hend : updateSources env sources false st = (none, st')) :
    st'.trace = st.trace := by
  induction sources generalizing st with
  | nil => simp [updateSources] at hend
  | cons u rest ih =>
      rw [List.map_cons, List.nodup_cons] at hnodup
      by_cases hnew : IsNew env st u
      · by_cases hbroken : IsBroken env st u
        · obtain ⟨-, hactive⟩ := h [] u rest rfl hbroken fun v hv => absurd hv List.not_mem_nil
          rw [updateSources_cons_broken rest false hbroken] at hend
          obtain rfl : _ = st' := (Prod.ext_iff.mp hend).2
          simp [UpdateState.record, activeAfter, hactive]
        · rw [updateSources_cons_new rest false hnew hbroken] at hend
          have hrest := not_isBroken_record hnodup.1 (h.not_broken hnew hbroken)
          obtain ⟨needs, hneeds, -⟩ := updateSources_ends hnodup.2 hrest true
          rw [hend] at hneeds
          exact absurd hneeds.symm (Option.some_ne_none _)
      · rw [updateSources_cons_old rest false hnew] at hend
        exact ih hnodup.2 (h.tail fun hbroken => hnew hbroken.1) hend

/-! ### Runs of calls -/

theorem settled_configured (trace : List Event) : Settled (trace ++ [Event.configured]) := by
  intro before source after heq
  rcases List.eq_nil_or_concat after with rfl | ⟨front, last, rfl⟩
  · have hlast := congrArg List.getLast? heq
    simp at hlast
  · have hlast := congrArg List.getLast? heq
    have hcons : before ++ Event.changed source :: (front ++ [last]) =
        (before ++ Event.changed source :: front) ++ [last] := by simp
    rw [List.concat_eq_append, hcons, List.getLast?_concat, List.getLast?_concat] at hlast
    rw [List.concat_eq_append, ← Option.some.inj hlast]
    exact List.mem_append_right _ (List.mem_singleton.mpr rfl)

theorem update_loaded (forwarded : String × String → Bool) (config : ConfigMap)
    (st : UpdateState) : (update env forwarded config st).loaded = st.loaded := by
  have hloop := @updateSources_loaded env config.toList false st
  rw [update]
  split
  · rfl
  · split <;> rename_i hend <;> rw [hend] at hloop
    · exact hloop
    · split <;> exact hloop

theorem nodup_sources (config : ConfigMap) : (config.toList.map Prod.fst).Nodup := by
  rw [Std.ExtTreeMap.map_fst_toList_eq_keys]
  exact Std.ExtTreeMap.nodup_keys

/-- A call without losses leaves no change behind. -/
theorem update_settled {forwarded : String × String → Bool} {config : ConfigMap}
    {st : UpdateState} (hloaded : st.loaded = true) (h : Settled st.trace)
    (hlossless : Lossless env st config) : Settled (update env forwarded config st).trace := by
  rw [update]
  split
  · exact h
  · split
    · rename_i st' hend
      rw [updateSources_lossless (nodup_sources config) hlossless hend]
      exact h
    · rename_i needs st' hend
      cases needs with
      | false =>
          rw [updateSources_unchanged hend, Bool.and_false]
          exact h
      | true =>
          have hst' : st'.loaded = true := by
            rw [← hloaded, ← updateSources_loaded config.toList false st, hend]
          rw [hst']
          exact settled_configured _

/-- Runs of calls of a loaded configuration in which no call loses a change. -/
inductive Reached (env : Environment) (forwarded : String × String → Bool) : UpdateState → Prop
  | start (st : UpdateState) (hloaded : st.loaded = true) (hsettled : Settled st.trace) :
      Reached env forwarded st
  | update {st : UpdateState} (h : Reached env forwarded st) (config : ConfigMap)
      (hlossless : Lossless env st config) :
      Reached env forwarded (Config.update env forwarded config st)

theorem Reached.settled {forwarded : String × String → Bool} {st : UpdateState}
    (h : Reached env forwarded st) : st.loaded = true ∧ Settled st.trace := by
  induction h with
  | start st hloaded hsettled => exact ⟨hloaded, hsettled⟩
  | update h config hlossless ih =>
      refine ⟨?_, update_settled ih.1 ih.2 hlossless⟩
      rw [update_loaded]
      exact ih.1

theorem lossless_of_parses {config : ConfigMap} (st : UpdateState)
    (h : ∀ u ∈ config.toList, parseObject env u.2 ≠ none) : Lossless env st config := by
  intro before u after heq hbroken
  have hu : u ∈ config.toList := by
    rw [heq]
    exact List.mem_append_right _ List.mem_cons_self
  exact absurd hbroken.2 (h u hu)

/-- After a call with well-formed texts every change was followed by a configure
step. -/
theorem change_configured (env : Environment) (forwarded : String × String → Bool)
    (st : UpdateState) (h : Reached env forwarded st) (config : ConfigMap)
    (hparses : ∀ u ∈ config.toList, parseObject env u.2 ≠ none) :
    Settled (update env forwarded config st).trace :=
  update_settled h.settled.1 h.settled.2 (lossless_of_parses st hparses)

/-- A loaded configuration without sources. -/
def loadedState : UpdateState := ⟨ConfigState.reset sampleFlags, true, ∅, []⟩

/-- A call that finds a malformed text for a source without one in effect. -/
theorem lossless_malformed :
    Lossless sampleEnvironment loadedState ((∅ : ConfigMap).insert "b" "[") := by
  intro before u after heq _ _
  have hlist : ((∅ : ConfigMap).insert "b" "[").toList = [("b", "[")] := by
    decide +kernel
  rw [hlist] at heq
  cases before with
  | nil =>
      obtain rfl := (List.cons.inj heq).1
      exact ⟨fun v hv => absurd hv List.not_mem_nil, rfl⟩
  | cons w before => simp at heq

/-- A call with one source, after the one with the malformed text. -/
theorem change_configured_pack :
    Settled (update sampleEnvironment (fun _ => true) ((∅ : ConfigMap).insert "a" packText)
      (update sampleEnvironment (fun _ => true) ((∅ : ConfigMap).insert "b" "[")
        loadedState)).trace := by
  apply change_configured
  · apply Reached.update _ _ lossless_malformed
    exact Reached.start loadedState rfl fun before source after heq =>
      absurd heq.symm (by simp [loadedState])
  · intro u hu
    have hlist : ((∅ : ConfigMap).insert "a" packText).toList = [("a", packText)] := by
      decide +kernel
    rw [hlist, List.mem_singleton] at hu
    rw [hu, parseObject_packText]
    exact Option.some_ne_none _

/-- The source `a` changes in a call that breaks off at the source `b`; the next
call finds the text of `a` unchanged. -/
theorem change_not_configured :
    ¬Settled (update sampleEnvironment (fun _ => true) ((∅ : ConfigMap).insert "a" packText)
      (update sampleEnvironment (fun _ => true)
        (((∅ : ConfigMap).insert "a" packText).insert "b" "[") loadedState)).trace := by
  have htrace : (update sampleEnvironment (fun _ => true) ((∅ : ConfigMap).insert "a" packText)
      (update sampleEnvironment (fun _ => true)
        (((∅ : ConfigMap).insert "a" packText).insert "b" "[") loadedState)).trace =
      [Event.changed "a"] := by
    decide +kernel
  rw [htrace]
  intro h
  exact List.not_mem_nil (h [] "a" [] rfl)

end Osquery.Config
