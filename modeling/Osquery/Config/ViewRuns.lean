import Osquery.Config.Views
import Osquery.Foundation.Contributions
import Osquery.Foundation.Simulation

/-!
# Configured views and live views

Sources give their contents one after another, and the process restarts in between; then the
views of the SQL engine are gone and their records are not. The views in the engine and the
records are those that the latest contents call for as long as a document names what the other
sources call for, every text that replaces a recorded one is accepted, no text that is recorded
belongs to a view that is gone, and no two of the names are one to the engine.

## Implementation notes

A text is accepted when the engine accepts it during the update, or when it is the one that is
called for already, so that it need not be created. The sources are kept in the order of their
last updates, and of several texts for one name the last accepted one counts.
-/

namespace Osquery.Config

open Foundation.JsonText Foundation.Contributions Foundation.Simulation Core.BackingStore
open Core.Rows Database

/-! ### Last values -/

theorem lastValue_ne_none {data : List (String × String)} {e : String × String} (h : e ∈ data) :
    lastValue data e.1 ≠ none := by
  induction data with
  | nil => cases h
  | cons p rest ih =>
      rw [lastValue, ne_eq, Option.or_eq_none_iff]
      rintro ⟨hrest, hhead⟩
      rcases List.mem_cons.mp h with rfl | h
      · rw [if_pos rfl] at hhead
        cases hhead
      · exact ih h hrest

theorem lastValue_filter_eq_none {data : List (String × String)} {key : String}
    (hmem : key ∉ data.map Prod.fst) (keep : String × String → Bool) :
    lastValue (data.filter keep) key = none := by
  apply lastValue_eq_none
  rintro p hp rfl
  exact hmem (List.mem_map_of_mem (List.mem_of_mem_filter hp))

/-! ### The loop over the views of a document -/

namespace ViewsState

/-- The loop over a document loses no view: every text is accepted, unless its name has no
record or the text is recorded, a recorded text that comes first is that of a live view, and the
engine tells a live view and the names of the document from those and from the recorded ones. -/
structure Replaceable (ident : String → String) (accepts : String → String → Bool)
    (st : ViewsState) (entries : List (String × String)) : Prop where
  accepted : ∀ e ∈ entries, accepts e.1 e.2 = true ∨ st.record e.1 = none ∨
    st.record e.1 = some e.2
  repeated : entries.Pairwise fun e e' =>
    e.1 = e'.1 → accepts e.1 e.2 = true → accepts e'.1 e'.2 = true
  live : ∀ name query, entries.lookup name = some query → st.record name = some query →
    st.views[name]? = some query
  told : ∀ view name, view ∈ st.views ∨ view ∈ entries.map Prod.fst →
    (st.record name).isSome ∨ name ∈ entries.map Prod.fst → ident view = ident name → view = name

variable {ident : String → String} {accepts : String → String → Bool} {s : ViewsState × List String}
  {e : String × String} {entries : List (String × String)}

theorem lookup_cons_self (e : String × String) (entries : List (String × String)) :
    (e :: entries).lookup e.1 = some e.2 := by
  rw [List.lookup_cons, beq_self_eq_true]

theorem lookup_cons_of_ne {l : List (String × String)} {name : String} (h : e.1 ≠ name) :
    (e :: l).lookup name = l.lookup name := by
  rw [List.lookup_cons, beq_false_of_ne h.symm]

theorem Replaceable.alone (h : Replaceable ident accepts s.1 (e :: entries)) :
    s.1.Alone ident e.1 :=
  fun view hview => h.told view e.1 (.inl hview) (.inr (List.mem_cons_self ..))

/-- Only the name of the view is new among the live views and the records. -/
theorem mem_updateEntry (h : s.1.Alone ident e.1) {name : String} :
    (name ∈ (updateEntry ident accepts s e).1.views → name ∈ s.1.views ∨ name = e.1) ∧
      (((updateEntry ident accepts s e).1.record name).isSome →
        (s.1.record name).isSome ∨ name = e.1) := by
  rw [updateEntry]
  split
  · exact ⟨Or.inl, Or.inl⟩
  · rw [Std.ExtTreeMap.mem_iff_isSome_getElem?, Std.ExtTreeMap.mem_iff_isSome_getElem?,
      views_replaceView accepts h, record_replaceView]
    constructor
    · intro hview
      split at hview
      · next hname => exact .inr hname.symm
      · exact .inl hview
    · intro hrecord
      split at hrecord
      · next hname => exact .inr hname.1.symm
      · exact .inl hrecord

/-- One view that is recorded, replaced, or not accepted. -/
theorem Replaceable.updateEntry (h : Replaceable ident accepts s.1 (e :: entries)) :
    Replaceable ident accepts (updateEntry ident accepts s e).1 entries := by
  have hrest := List.pairwise_cons.mp h.repeated
  have htold : ∀ view name,
      view ∈ (ViewsState.updateEntry ident accepts s e).1.views ∨ view ∈ entries.map Prod.fst →
      ((ViewsState.updateEntry ident accepts s e).1.record name).isSome ∨
        name ∈ entries.map Prod.fst → ident view = ident name → view = name := by
    intro view name hview hname
    have hin : ∀ other, other = e.1 ∨ other ∈ entries.map Prod.fst →
        other ∈ (e :: entries).map Prod.fst := fun other hother => List.mem_cons.mpr hother
    refine h.told view name ?_ ?_
    · rcases hview with hview | hview
      · exact ((mem_updateEntry h.alone).1 hview).imp_right fun heq => hin view (.inl heq)
      · exact .inr (hin view (.inr hview))
    · rcases hname with hname | hname
      · exact ((mem_updateEntry h.alone).2 hname).imp_right fun heq => hin name (.inl heq)
      · exact .inr (hin name (.inr hname))
  rw [ViewsState.updateEntry] at htold ⊢
  split
  · next hrecorded =>
      rw [if_pos hrecorded] at htold
      refine ⟨fun e' he' => h.accepted e' (List.mem_cons_of_mem _ he'), hrest.2, ?_, htold⟩
      intro name query hlookup hrecord
      by_cases hname : e.1 = name
      · subst hname
        obtain rfl := Option.some.inj (hrecorded.symm.trans hrecord)
        exact h.live e.1 e.2 (lookup_cons_self e entries) hrecorded
      · exact h.live name query ((lookup_cons_of_ne hname).trans hlookup) hrecord
  · next hnew =>
      rw [if_neg hnew] at htold
      refine ⟨?_, hrest.2, ?_, htold⟩
      · intro e' he'
        rw [record_replaceView]
        by_cases hcreated : e.1 = e'.1 ∧ accepts e.1 e.2 = true
        · exact .inl (hrest.1 e' he' hcreated.1 hcreated.2)
        · rw [if_neg hcreated]
          exact h.accepted e' (List.mem_cons_of_mem _ he')
      · intro name query hlookup hrecord
        rw [record_replaceView] at hrecord
        rw [views_replaceView accepts h.alone]
        by_cases hname : e.1 = name
        · subst hname
          rw [if_pos rfl]
          cases haccepts : accepts e.1 e.2 with
          | true =>
              rw [haccepts, if_pos ⟨rfl, rfl⟩] at hrecord
              rw [if_pos rfl]
              exact hrecord
          | false =>
              rw [haccepts, if_neg fun hboth => Bool.noConfusion hboth.2] at hrecord
              rcases h.accepted e (List.mem_cons_self ..) with htrue | hnone | hsome
              · cases haccepts.symm.trans htrue
              · cases hnone.symm.trans hrecord
              · exact absurd hsome hnew
        · rw [if_neg fun hboth => hname hboth.1] at hrecord
          rw [if_neg hname]
          exact h.live name query ((lookup_cons_of_ne hname).trans hlookup) hrecord

/-- The text is accepted, or recorded already. -/
def keeps (accepts : String → String → Bool) (record : String → Option String)
    (e : String × String) : Bool :=
  accepts e.1 e.2 || record e.1 == some e.2

theorem record_updateEntry (name : String) :
    (updateEntry ident accepts s e).1.record name =
      if e.1 = name ∧ keeps accepts s.1.record e = true then some e.2 else s.1.record name := by
  rw [updateEntry, keeps]
  split
  · next hrecorded =>
      rw [hrecorded, beq_self_eq_true, Bool.or_true]
      split
      · next hname =>
          rw [← hname.1]
          exact hrecorded
      · rfl
  · next hnew =>
      rw [beq_false_of_ne hnew, Bool.or_false]
      exact record_replaceView accepts e.2 name

theorem Replaceable.views_updateEntry (h : Replaceable ident accepts s.1 (e :: entries))
    (name : String) :
    (ViewsState.updateEntry ident accepts s e).1.views[name]? =
      if e.1 = name then (ViewsState.updateEntry ident accepts s e).1.record name
      else s.1.views[name]? := by
  rw [ViewsState.updateEntry]
  split
  · next hrecorded =>
      split
      · next hname =>
          subst hname
          rw [hrecorded]
          exact h.live e.1 e.2 (lookup_cons_self e entries) hrecorded
      · rfl
  · next hnew =>
      rw [views_replaceView accepts h.alone, record_replaceView]
      split
      · next hname =>
          subst hname
          cases haccepts : accepts e.1 e.2 with
          | true => rw [if_pos rfl, if_pos ⟨rfl, rfl⟩]
          | false =>
              rw [if_neg Bool.false_ne_true, if_neg fun hboth => Bool.noConfusion hboth.2]
              rcases h.accepted e (List.mem_cons_self ..) with htrue | hnone | hsome
              · cases haccepts.symm.trans htrue
              · exact hnone.symm
              · exact absurd hsome hnew
      · rfl

/-- What is kept of the views behind one is the same after that one. -/
theorem Replaceable.keeps_updateEntry (h : Replaceable ident accepts s.1 (e :: entries))
    {e' : String × String} (he' : e' ∈ entries) :
    keeps accepts (ViewsState.updateEntry ident accepts s e).1.record e' =
      keeps accepts s.1.record e' := by
  have hrepeated := (List.pairwise_cons.mp h.repeated).1 e' he'
  rw [keeps, record_updateEntry]
  split
  · next hname =>
      obtain ⟨hname, hkeeps⟩ := hname
      cases haccepts : accepts e.1 e.2 with
      | true => rw [keeps, hrepeated hname haccepts, Bool.true_or, Bool.true_or]
      | false =>
          rw [keeps, haccepts, Bool.false_or, beq_iff_eq] at hkeeps
          rw [keeps, ← hname, hkeeps]
  · rfl

/-- The loop records the texts of the document that are kept and makes their views live. -/
theorem Replaceable.foldl_updateEntry (h : Replaceable ident accepts s.1 entries) (name : String) :
    (entries.foldl (ViewsState.updateEntry ident accepts) s).1.record name =
        (lastValue (entries.filter (keeps accepts s.1.record)) name).or (s.1.record name) ∧
      (entries.foldl (ViewsState.updateEntry ident accepts) s).1.views[name]? =
        if name ∈ entries.map Prod.fst then
          (entries.foldl (ViewsState.updateEntry ident accepts) s).1.record name
        else s.1.views[name]? := by
  induction entries generalizing s with
  | nil => exact ⟨rfl, (if_neg List.not_mem_nil).symm⟩
  | cons e entries ih =>
      obtain ⟨hrecord, hviews⟩ := ih h.updateEntry
      have hfilter : entries.filter (keeps accepts (ViewsState.updateEntry ident accepts s e).1.record) =
          entries.filter (keeps accepts s.1.record) :=
        List.filter_congr fun e' he' => h.keeps_updateEntry he'
      have hlast : (lastValue ((e :: entries).filter (keeps accepts s.1.record)) name).or
            (s.1.record name) =
          (lastValue (entries.filter (keeps accepts s.1.record)) name).or
            ((ViewsState.updateEntry ident accepts s e).1.record name) := by
        rw [record_updateEntry, List.filter_cons]
        cases hkeeps : keeps accepts s.1.record e with
        | true =>
            simp only [if_true, and_true, lastValue, Option.or_assoc]
            split <;> rfl
        | false => simp only [Bool.false_eq_true, if_false, and_false]
      rw [List.foldl_cons]
      refine ⟨?_, ?_⟩
      · rw [hlast, hrecord, hfilter]
      · rw [hviews, List.map_cons]
        by_cases hmem : name ∈ entries.map Prod.fst
        · rw [if_pos hmem, if_pos (List.mem_cons_of_mem _ hmem)]
        · rw [if_neg hmem, h.views_updateEntry name]
          by_cases hname : e.1 = name
          · rw [if_pos hname, if_pos (hname ▸ List.mem_cons_self ..), hrecord, hfilter,
              lastValue_filter_eq_none hmem, Option.none_or]
          · rw [if_neg hname, if_neg fun hcons => (List.mem_cons.mp hcons).elim
              (fun heq => hname heq.symm) hmem]

/-- The views that are left to erase. -/
theorem foldl_updateEntry_snd (ident : String → String) (accepts : String → String → Bool) (s : ViewsState × List String)
    (entries : List (String × String)) (name : String) :
    name ∈ (entries.foldl (updateEntry ident accepts) s).2 ↔
      name ∈ s.2 ∧ name ∉ entries.map Prod.fst := by
  induction entries generalizing s with
  | nil => simp
  | cons e entries ih =>
      rw [List.foldl_cons, ih, updateEntry, List.mem_filter, List.map_cons, List.mem_cons, not_or,
        decide_eq_true_eq, and_assoc]

/-- No live view is one to the engine with a view that is left to erase. -/
theorem Replaceable.alone_foldl (h : Replaceable ident accepts s.1 entries)
    (hold : ∀ old_view ∈ s.2, (s.1.record old_view).isSome) :
    ∀ old_view ∈ (entries.foldl (ViewsState.updateEntry ident accepts) s).2,
      (entries.foldl (ViewsState.updateEntry ident accepts) s).1.Alone ident old_view := by
  intro old_view hleft view hview
  have hmem := ((foldl_updateEntry_snd ident accepts s entries old_view).mp hleft).1
  refine h.told view old_view ?_ (.inl (hold old_view hmem))
  rw [Std.ExtTreeMap.mem_iff_isSome_getElem?, (h.foldl_updateEntry view).2] at hview
  split at hview
  · next hname => exact .inr hname
  · exact .inl (Std.ExtTreeMap.mem_iff_isSome_getElem?.mpr hview)

/-- A name none of whose texts is kept has no record. -/
theorem Replaceable.record_eq_none {st : ViewsState} (h : Replaceable ident accepts st entries)
    {name : String} (hmem : name ∈ entries.map Prod.fst)
    (hlast : lastValue (entries.filter (keeps accepts st.record)) name = none) :
    st.record name = none := by
  obtain ⟨e, he, rfl⟩ := List.mem_map.mp hmem
  have hnot : keeps accepts st.record e = false := by
    by_contra hkeeps
    rw [Bool.not_eq_false] at hkeeps
    exact lastValue_ne_none (List.mem_filter.mpr ⟨he, hkeeps⟩) hlast
  rw [keeps, Bool.or_eq_false_iff, beq_eq_false_iff_ne] at hnot
  rcases h.accepted e he with htrue | hnone | hsome
  · cases hnot.1.symm.trans htrue
  · exact hnone
  · exact absurd hsome hnot.2

/-- What the update with a document comes to. -/
theorem update_some (ident : String → String) (accepts : String → String → Bool)
    (st : ViewsState) {obj cv : Json}
    (hcv : parserMember? "views" obj = some cv) :
    ∃ s : ViewsState × List String,
      (viewEntries obj).foldl (updateEntry ident accepts)
        ({ st with data_ := st.data_.insert "views" cv }, st.oldViews) = s ∧
      (st.update ident accepts (some cv)).2 = s.2.foldl (eraseView ident) s.1 := by
  have hentries : (getObject cv).filterMap namedView? = viewEntries obj := by
    rw [viewEntries, hcv]
    rfl
  refine ⟨_, rfl, ?_⟩
  simp only [update, Std.ExtTreeMap.getElem?_insert_self, Option.map_some, Option.getD_some,
    foldl_updateView, hentries]
  rfl

/-- An update with a document leaves the views of the document that are kept, and no others. -/
theorem Replaceable.update {st : ViewsState} {obj cv : Json}
    (hcv : parserMember? "views" obj = some cv)
    (h : Replaceable ident accepts st (viewEntries obj))
    (hlive : ∀ name query, st.views[name]? = some query → st.record name = some query)
    (name : String) :
    (st.update ident accepts (some cv)).2.record name =
        lastValue ((viewEntries obj).filter (keeps accepts st.record)) name ∧
      (st.update ident accepts (some cv)).2.views[name]? =
        lastValue ((viewEntries obj).filter (keeps accepts st.record)) name := by
  have hdocument : Replaceable ident accepts
      ({ st with data_ := st.data_.insert "views" cv }, st.oldViews).1 (viewEntries obj) :=
    ⟨h.accepted, h.repeated, h.live, h.told⟩
  obtain ⟨hrecord, hviews⟩ := hdocument.foldl_updateEntry name
  have herase := foldl_updateEntry_snd ident accepts
    ({ st with data_ := st.data_.insert "views" cv }, st.oldViews) (viewEntries obj) name
  have halone := hdocument.alone_foldl fun old_view hold => (mem_oldViews st old_view).mp hold
  obtain ⟨s, hs, hupdate⟩ := update_some ident accepts st hcv
  rw [hs] at halone
  obtain ⟨herased, hdropped⟩ := foldl_eraseView halone name
  rw [hs] at hrecord hviews herase
  rw [hrecord] at hviews
  have hsame : ({ st with data_ := st.data_.insert "views" cv } : ViewsState).record =
      st.record := rfl
  rw [hsame] at hrecord hviews
  rw [hupdate, herased, hdropped, hviews, hrecord]
  simp only [herase, mem_oldViews]
  by_cases hmem : name ∈ (viewEntries obj).map Prod.fst
  · have hkept : (lastValue ((viewEntries obj).filter (keeps accepts st.record)) name).or
          (st.record name) =
        lastValue ((viewEntries obj).filter (keeps accepts st.record)) name := by
      cases hlast : lastValue ((viewEntries obj).filter (keeps accepts st.record)) name with
      | some query => rfl
      | none => exact h.record_eq_none hmem hlast
    rw [if_neg fun hboth => hboth.2 hmem, if_pos hmem, if_neg fun hboth => hboth.2 hmem, hkept]
    exact ⟨rfl, rfl⟩
  · rw [lastValue_filter_eq_none hmem, Option.none_or, if_neg hmem]
    cases hold : st.record name with
    | some query => exact ⟨if_pos ⟨rfl, hmem⟩, if_pos ⟨rfl, hmem⟩⟩
    | none =>
        refine ⟨ite_self _, ?_⟩
        rw [if_neg fun hboth => Bool.noConfusion hboth.1]
        cases hview : st.views[name]? with
        | none => rfl
        | some query => cases hold.symm.trans (hlive name query hview)

end ViewsState

/-! ### Runs of updates and restarts -/

inductive ViewsAction
  | update (source : String) (obj : Json) (accepts : String → String → Bool)
  | restart

/-- The accepted views of the latest contents, the sources in the order of their updates. -/
abbrev ViewContents := List (String × List (String × String))

/-- The text that the latest contents call for under a name. -/
def calledFor (contents : ViewContents) (name : String) : Option String :=
  lastValue (contents.flatMap Prod.snd) name

structure ViewsRun where
  parser : ViewsState
  contents : ViewContents

namespace ViewsRun

variable (ident : String → String)

/-- The views of an object whose texts are accepted, or called for already. -/
def acceptedViews (run : ViewsRun) (obj : Json) (accepts : String → String → Bool) :
    List (String × String) :=
  (viewEntries obj).filter fun e =>
    accepts e.1 e.2 || calledFor run.contents e.1 == some e.2

def step (run : ViewsRun) : ViewsAction → ViewsRun
  | .update source obj accepts =>
      { parser := (run.parser.update ident accepts (parserMember? "views" obj)).2
        contents := replace source (run.acceptedViews obj accepts) run.contents }
  | .restart =>
      { run with
        parser := { run.parser with
          views := ∅
          data_ := (∅ : Std.ExtTreeMap String Json).insert "views" (.obj []) } }

/-- The live views and the records are what the latest contents call for. -/
structure Agrees (run : ViewsRun) : Prop where
  live : ∀ name : String, run.parser.views[name]? = calledFor run.contents name
  recorded : ∀ name, run.parser.record name = calledFor run.contents name

/-- After an update the views are those of the latest contents. -/
def AgreesAfter (run : ViewsRun) (action : ViewsAction) : Prop :=
  match action with
  | .update _ _ _ => (run.step ident action).Agrees
  | .restart => True

/-- The records are what the latest contents call for, and the live views are recorded. -/
structure Recorded (run : ViewsRun) : Prop where
  recorded : ∀ name, run.parser.record name = calledFor run.contents name
  live : ∀ name query, run.parser.views[name]? = some query → run.parser.record name = some query

variable {ident} {run : ViewsRun}

theorem Recorded.restart (h : run.Recorded) : (run.step ident .restart).Recorded where
  recorded := h.recorded
  live name query hview := by
    rw [step, Std.ExtTreeMap.getElem?_empty] at hview
    cases hview

end ViewsRun

/-! ### Sample runs -/

/-- A document with one view, when no other one is live or recorded. -/
theorem ViewsState.Replaceable.single {ident : String → String} {accepts : String → String → Bool}
    {st : ViewsState} {name query : String} (haccepts : accepts name query = true)
    (hviews : ∀ view ∈ st.views.keys, view = name) (hold : ∀ view ∈ st.oldViews, view = name)
    (hlive : st.record name = some query → st.views[name]? = some query) :
    st.Replaceable ident accepts [(name, query)] := by
  refine ⟨?_, List.pairwise_singleton _ _, ?_, ?_⟩
  · intro e he
    rw [List.mem_singleton.mp he]
    exact .inl haccepts
  · intro other query' hlookup hrecord
    by_cases hname : name = other
    · subst hname
      obtain rfl := Option.some.inj ((lookup_cons_self (name, query) []).symm.trans hlookup)
      exact hlive hrecord
    · have hother := lookup_cons_of_ne (e := (name, query)) (l := []) hname
      cases hother.symm.trans hlookup
  · intro view other hview hother _
    have hv : view = name :=
      hview.elim (fun h => hviews view (Std.ExtTreeMap.mem_keys.mpr h)) List.mem_singleton.mp
    have ho : other = name :=
      hother.elim (fun h => hold other ((mem_oldViews st other).mpr h)) List.mem_singleton.mp
    rw [hv, ho]

end Osquery.Config
