import Osquery.Foundation.Interleaving
import Osquery.EventSubscribers.Timeline

/-!
# Two threads on one subscriber

A publisher thread adds batches while a query thread scans. Every database call
and every access to the members is one step, and the steps of both threads
interleave. The publisher takes the lock of the record lists; expiry, in either
thread, does not, so nothing keeps the query thread from rewriting the index
that it read before the publisher added a bin to it.

## Implementation notes

There is one publisher thread, so the lock that `recordEvents` takes excludes
nothing and is left out. The shared state records whether the publisher has
added a bin since the query thread last read the index; no program reads it.
-/

namespace Osquery.EventSubscribers

open Foundation.AtomicProgram Foundation.JsonText Foundation.Numeral Foundation.Separated
open Foundation.Grouping Foundation.Interleaving Core.BackingStore Core.Conversions Core.Rows

/-! ### The threads -/

/-- The threads that share a subscriber. -/
inductive Thread
  | publisher
  | query
  deriving DecidableEq, Repr

/-- The state, and whether the publisher has added a bin to the index since the
query thread last read it. -/
structure Shared where
  state : State
  overtaken : Bool

section Steps

variable (ns : String)

/-- The index is read. -/
def readsIndex : (β : Type) → Access β → Bool
  | _, .database (.get domain key) => domain = kEvents && key = indexKey ns
  | _, _ => false

/-- The index is written. -/
def writesIndex : (β : Type) → Access β → Bool
  | _, .database (.putBatch domain data) =>
      domain = kEvents && data.any fun d => d.1 = indexKey ns
  | _, _ => false

/-- The index is written together with the record list of a bin. -/
def addsBin : (β : Type) → Access β → Bool
  | _, .database (.putBatch domain data) =>
      writesIndex ns _ (.database (.putBatch domain data)) &&
        data.any fun d => ("records." ++ ns ++ ".60.").toList.isPrefixOf d.1.toList
  | _, _ => false

/-- What a step of a thread does. -/
def effect (t : Thread) : Effect Access Shared := fun β o w =>
  let r := o.exec w.state
  (r.1, ⟨r.2, match t with
    | .publisher => w.overtaken || addsBin ns β o
    | .query => w.overtaken && !readsIndex ns β o⟩)

/-- The query thread writes the index only where the publisher has added no bin
since the query thread read it. -/
def UpToDate (t : Thread) : Guard Access Shared := fun β o w =>
  t = .query → writesIndex ns β o = true → w.overtaken = false

instance (t : Thread) (β : Type) (o : Access β) (w : Shared) : Decidable (UpToDate ns t β o w) :=
  inferInstanceAs (Decidable (t = .query → writesIndex ns β o = true → w.overtaken = false))

end Steps

/-- A call of `addBatch`. -/
structure BatchCall where
  row_list : List Row
  custom_event_time : EventTime
  now : EventTime

/-- A call of `get`. -/
structure ScanCall where
  start : EventTime
  stop : EventTime
  now : EventTime

/-- What a thread returns. -/
abbrev Answer : Thread → Type
  | .publisher => List (Except Failure Unit)
  | .query => List (List Row)

section Programs

variable (p : Process) (sub : Subscriber)

/-- The publisher thread adds its batches. -/
def publish : List BatchCall → Prog Access (List (Except Failure Unit))
  | [] => pure []
  | c :: rest => do
      let status ← addBatch p sub c.row_list c.custom_event_time c.now
      let statuses ← publish rest
      return status :: statuses

/-- The query thread scans. -/
def scanAll : List ScanCall → Prog Access (List (List Row))
  | [] => pure []
  | c :: rest => do
      let rows ← get p sub c.start c.stop c.now
      let others ← scanAll rest
      return rows :: others

/-- Both threads before their first step. -/
def begin (batches : List BatchCall) (scans : List ScanCall) (s : State) :
    Config Access Shared Answer where
  pool
    | .publisher => publish p sub batches
    | .query => scanAll p sub scans
  state := ⟨s, false⟩

end Programs

/-- What a call adds if it succeeds. -/
def ifAdded {α : Type} (status : Except Failure Unit) (new : List α) : List α :=
  match status with
  | .ok () => new
  | .error _ => []

/-- The records of the batches that were added, for a last id at the start. -/
def recorded : ℕ → List BatchCall → List (Except Failure Unit) → List Record
  | eid, c :: batches, status :: statuses =>
      ifAdded status (recordsAt (eventTime c.custom_event_time c.now)
        (List.range' (eid + 1) c.row_list.length)) ++
      recorded (eid + c.row_list.length) batches statuses
  | _, _, _ => []

/-! ### What a thread relies on and guarantees -/

section Disciplines

variable (ns : String) (b : ℕ)

/-- A bin with records is in the index, and the expire time is a whole minute. -/
structure Sound (s : State) : Prop where
  listed : valueAt s.db (recordKey ns (toText b)) ≠ "" → toText b ∈ indexedBins ns s.db
  wholeMinute : WholeMinute s.members

/-- The record list of the bin and the counter of ids read as before. -/
structure Kept (s s' : State) : Prop where
  text : valueAt s'.db (recordKey ns (toText b)) = valueAt s.db (recordKey ns (toText b))
  eid : valueAt s'.db (eidKey ns) = valueAt s.db (eidKey ns)
  lastEid : s'.members.lastEid = s.members.lastEid

/-- The index and the record list of the bin read as before. -/
structure SameIndex (s s' : State) : Prop where
  text : valueAt s'.db (recordKey ns (toText b)) = valueAt s.db (recordKey ns (toText b))
  index : valueAt s'.db (indexKey ns) = valueAt s.db (indexKey ns)
  wholeMinute : WholeMinute s.members → WholeMinute s'.members

/-- What the publisher thread notices of a step of the query thread. -/
structure Unnoticed (s s' : State) : Prop where
  kept : Kept ns b s s'
  sound : Sound ns b s → Sound ns b s'

/-- What the query thread notices of a step of the publisher thread. -/
structure Announced (w w' : Shared) : Prop where
  sound : Sound ns b w.state → Sound ns b w'.state
  upToDate : w'.overtaken = false → w.overtaken = false
  records : w'.overtaken = false → valueAt w'.state.db (recordKey ns (toText b)) ≠ "" →
    valueAt w.state.db (recordKey ns (toText b)) ≠ ""

/-- What a thread guarantees. -/
def guarantee : Thread → Shared → Shared → Prop
  | .publisher, w, w' => Announced ns b w w'
  | .query, w, w' => Unnoticed ns b w.state w'.state

/-- The other thread. -/
def Thread.other : Thread → Thread
  | .publisher => .query
  | .query => .publisher

variable {ns b}

theorem Kept.refl (s : State) : Kept ns b s s := ⟨rfl, rfl, rfl⟩

theorem Kept.trans {s s' s'' : State} (h : Kept ns b s s') (h' : Kept ns b s' s'') :
    Kept ns b s s'' :=
  ⟨h'.text.trans h.text, h'.eid.trans h.eid, h'.lastEid.trans h.lastEid⟩

theorem guarantee_refl (t : Thread) (w : Shared) : guarantee ns b t w w := by
  cases t with
  | publisher => exact ⟨id, id, fun _ => id⟩
  | query => exact ⟨Kept.refl _, id⟩

theorem guarantee_trans {t : Thread} {w w' w'' : Shared} (h : guarantee ns b t w w')
    (h' : guarantee ns b t w' w'') : guarantee ns b t w w'' := by
  cases t with
  | publisher =>
      refine ⟨h'.sound ∘ h.sound, h.upToDate ∘ h'.upToDate, fun hup htext => ?_⟩
      exact h.records (h'.upToDate hup) (h'.records hup htext)
  | query => exact ⟨h.kept.trans h'.kept, h'.sound ∘ h.sound⟩

theorem guarantee_sound {t : Thread} {w w' : Shared} (h : guarantee ns b t w w')
    (hw : Sound ns b w.state) : Sound ns b w'.state := by
  cases t with
  | publisher => exact h.sound hw
  | query => exact h.sound hw

variable (ns b)

/-- A thread in the runs in which the query thread does not overwrite a bin and
the bin under consideration does not expire. -/
def discipline (t : Thread) : Discipline Access Shared where
  effect := effect ns t
  permits := fun β o w => UpToDate ns t β o w ∧ stale w.state.members b = false
  rely := guarantee ns b t.other
  guarantee := guarantee ns b t
  rely_refl := guarantee_refl _
  rely_trans := guarantee_trans

theorem discipline_compatible : Compatible (discipline ns b) := by
  intro t t' w w' hne h
  have hother : t = t'.other := by
    cases t <;> cases t' <;> first | rfl | exact absurd rfl hne
  rw [discipline, hother] at h
  exact h

/-- The bins that a thread knows from the index include the bin if it has
records; the query thread knows this as long as no bin was added. -/
def Knows (t : Thread) (bins : List String) (w : Shared) : Prop :=
  (t = .query → w.overtaken = false) → valueAt w.state.db (recordKey ns (toText b)) ≠ "" →
    toText b ∈ bins

/-- A property of the record list of the bin and of the counter, which the
other thread leaves alone. -/
structure Framed (t : Thread) (F : State → Prop) : Prop where
  stable : (discipline ns b t).Stable fun w => F w.state
  kept : ∀ s s', Kept ns b s s' → F s → F s'

variable {ns b}

theorem framed_true (t : Thread) : Framed ns b t fun _ => True :=
  ⟨fun _ _ _ _ => trivial, fun _ _ _ _ => trivial⟩

theorem framed_publisher {F : State → Prop} (h : ∀ s s', Kept ns b s s' → F s → F s') :
    Framed ns b .publisher F :=
  ⟨fun w w' hr hw => h w.state w'.state hr.kept hw, h⟩

theorem publisher_ne_query : Thread.publisher ≠ Thread.query := by
  decide

theorem stable_sound (t : Thread) : (discipline ns b t).Stable fun w => Sound ns b w.state :=
  fun _ _ hr hw => guarantee_sound hr hw

theorem stable_knows (t : Thread) (bins : List String) :
    (discipline ns b t).Stable (Knows ns b t bins) := by
  intro w w' hr hw hup htext
  cases t with
  | publisher =>
      refine hw (fun h => absurd h publisher_ne_query) ?_
      rwa [← hr.kept.text]
  | query =>
      have hlast := hup rfl
      exact hw (fun _ => hr.upToDate hlast) (hr.records hlast htext)

end Disciplines

/-! ### Steps that concern neither the index nor the bin -/

section Quiet

variable (ns : String) (b : ℕ)

/-- Keys other than the index, the record list of the bin and the counter. -/
structure QuietKey (key : String) : Prop where
  index : key ≠ indexKey ns
  record : key ≠ recordKey ns (toText b)
  eid : key ≠ eidKey ns

/-- Operations that neither read the index nor touch what the threads keep. -/
def Quiet : (β : Type) → Access β → Prop
  | _, .database (.get domain key) => ¬(domain = kEvents ∧ key = indexKey ns)
  | _, .database (.putBatch domain data) => domain = kEvents ∧ ∀ d ∈ data, QuietKey ns b d.1
  | _, .database (.remove domain key) => domain = kEvents ∧ QuietKey ns b key
  | _, .database (.removeRange domain low high) =>
      domain = kEvents ∧ ∀ key, low ≤ key → key ≤ high → QuietKey ns b key
  | _, .database (.scan _ _ _) => True
  | _, .read => True
  | _, .update f => ∀ m, (f m).lastEid = m.lastEid ∧ (WholeMinute m → WholeMinute (f m))

variable {ns b}

theorem QuietKey.of_head {key : String} {c : Char} (h : key.toList.head? = some c)
    (hi : c ≠ 'i') (hr : c ≠ 'r') (he : c ≠ 'e') : QuietKey ns b key := by
  constructor
  · rintro rfl
    simp [indexKey] at h
    exact hi h.symm
  · rintro rfl
    simp [recordKey] at h
    exact hr h.symm
  · rintro rfl
    simp [eidKey] at h
    exact he h.symm

theorem QuietKey.data {key : String} (h : IsData key) : QuietKey ns b key := by
  obtain ⟨rest, hrest⟩ := h
  refine QuietKey.of_head (c := 'd') ?_ (by decide) (by decide) (by decide)
  rw [← hrest]
  rfl

theorem QuietKey.of_record {bin : String} (h : bin ≠ toText b) :
    QuietKey ns b (recordKey ns bin) :=
  ⟨indexKey_ne_recordKey ns bin, fun hk => h (recordKey_inj.mp hk), eidKey_not_record ns bin⟩

/-- A database that agrees except for quiet keys. -/
theorem quiet_agreesExcept {s : State} {db : Database} {P : String → Prop}
    (h : AgreesExcept P s.db db) (hP : ∀ key, P key → QuietKey ns b key) :
    Kept ns b s ⟨db, s.members⟩ ∧ SameIndex ns b s ⟨db, s.members⟩ := by
  have htext := h.valueAt_eq fun hk => (hP (recordKey ns (toText b)) hk).record rfl
  refine ⟨⟨htext, ?_, rfl⟩, htext, ?_, id⟩
  · exact h.valueAt_eq fun hk => (hP _ hk).eid rfl
  · exact h.valueAt_eq fun hk => (hP _ hk).index rfl

theorem quiet_exec {β : Type} {o : Access β} (ho : Quiet ns b β o) (s : State) :
    Kept ns b s (o.exec s).2 ∧ SameIndex ns b s (o.exec s).2 := by
  cases o with
  | read => exact ⟨Kept.refl s, rfl, rfl, id⟩
  | update f => exact ⟨⟨rfl, rfl, (ho s.members).1⟩, rfl, rfl, (ho s.members).2⟩
  | database o =>
      cases o with
      | get domain key => exact ⟨Kept.refl s, rfl, rfl, id⟩
      | scan domain pre max => exact ⟨Kept.refl s, rfl, rfl, id⟩
      | putBatch domain data =>
          obtain ⟨rfl, hdata⟩ := ho
          exact quiet_agreesExcept (agreesExcept_putBatch (QuietKey ns b) s.db data hdata)
            fun _ => id
      | remove domain key =>
          obtain ⟨rfl, hkey⟩ := ho
          refine quiet_agreesExcept (P := (· = key)) (removes_remove s.db key).kept ?_
          rintro _ rfl
          exact hkey
      | removeRange domain low high =>
          obtain ⟨rfl, hkey⟩ := ho
          exact quiet_agreesExcept (removes_removeRange s.db low high).kept
            fun key hk => hkey key hk.1 hk.2

/-- A quiet operation leaves what the threads have seen alone. -/
theorem quiet_overtaken {β : Type} {o : Access β} (ho : Quiet ns b β o) (t : Thread) (w : Shared) :
    (effect ns t β o w).2.overtaken = w.overtaken := by
  have hadds : addsBin ns β o = false := by
    cases o with
    | read => rfl
    | update f => rfl
    | database o =>
        cases o with
        | get domain key => rfl
        | scan domain pre max => rfl
        | remove domain key => rfl
        | removeRange domain low high => rfl
        | putBatch domain data =>
            have hnone : (data.any fun d => decide (d.1 = indexKey ns)) = false := by
              rw [List.any_eq_false]
              intro d hd
              simpa using (ho.2 d hd).index
            rw [addsBin, writesIndex, hnone, Bool.and_false, Bool.false_and]
  have hreads : readsIndex ns β o = false := by
    cases o with
    | read => rfl
    | update f => rfl
    | database o =>
        cases o with
        | scan domain pre max => rfl
        | remove domain key => rfl
        | removeRange domain low high => rfl
        | putBatch domain data => rfl
        | get domain key =>
            rw [readsIndex, ← Bool.decide_and, decide_eq_false_iff_not]
            exact ho
  cases t with
  | publisher =>
      rw [effect, hadds, Bool.or_false]
  | query =>
      rw [effect, hreads, Bool.not_false, Bool.and_true]

theorem Sound.congr {s s' : State} (h : Sound ns b s) (hsame : SameIndex ns b s s') :
    Sound ns b s' := by
  refine ⟨fun htext => ?_, hsame.wholeMinute h.wholeMinute⟩
  rw [hsame.text] at htext
  rw [indexedBins, hsame.index]
  exact h.listed htext

/-- A step that changes nothing that the threads share keeps every guarantee. -/
theorem guarantee_of_kept {t : Thread} {w w' : Shared} (hkept : Kept ns b w.state w'.state)
    (hsound : Sound ns b w.state → Sound ns b w'.state)
    (hup : t = .publisher → w'.overtaken = w.overtaken) : guarantee ns b t w w' := by
  cases t with
  | publisher =>
      refine ⟨hsound, fun h => (hup rfl) ▸ h, fun _ htext => ?_⟩
      rwa [← hkept.text]
  | query => exact ⟨hkept, hsound⟩

variable (ns b)

/-- What a thread knows while it uses bins that it read from the index. -/
structure Aware (t : Thread) (F : State → Prop) (bins : List String) (w : Shared) : Prop where
  sound : Sound ns b w.state
  frame : F w.state
  knows : Knows ns b t bins w

variable {ns b}

theorem Framed.stable_aware {t : Thread} {F : State → Prop} (hF : Framed ns b t F)
    (bins : List String) : (discipline ns b t).Stable (Aware ns b t F bins) :=
  fun w w' hr hw => ⟨stable_sound t w w' hr hw.sound, hF.stable w w' hr hw.frame,
    stable_knows t bins w w' hr hw.knows⟩

theorem Framed.stable_aware_and {t : Thread} {F : State → Prop} (hF : Framed ns b t F)
    (bins : List String) (P : Prop) :
    (discipline ns b t).Stable fun w => Aware ns b t F bins w ∧ P :=
  fun w w' hr hw => ⟨hF.stable_aware bins w w' hr hw.1, hw.2⟩

/-- A thread without bins from the index. -/
theorem aware_of_sound {t : Thread} {F : State → Prop} {w : Shared} (h : Sound ns b w.state)
    (hf : F w.state) : Aware ns b t F [toText b] w :=
  ⟨h, hf, fun _ _ => List.mem_singleton_self _⟩

/-- A program of quiet operations keeps what its thread knows. -/
theorem safe_quiet {α : Type} {t : Thread} {F : State → Prop} (hF : Framed ns b t F)
    {bins : List String} {prog : Prog Access α} (hprog : prog.Only (Quiet ns b)) {w : Shared}
    (hw : Aware ns b t F bins w) :
    (discipline ns b t).Safe (fun _ => Aware ns b t F bins) prog w := by
  refine Discipline.safe_of_only (hF.stable_aware bins) ?_ hprog hw
  rintro β o w ho - haware
  obtain ⟨hkept, hsame⟩ := quiet_exec ho w.state
  have hup := quiet_overtaken ho t w
  refine ⟨guarantee_of_kept hkept (fun h => h.congr hsame) fun _ => hup,
    haware.sound.congr hsame, hF.kept _ _ hkept haware.frame, ?_⟩
  intro hlast htext
  refine haware.knows (fun ht => ?_) ?_
  · rw [← hup]
    exact hlast ht
  · rwa [← hkept.text]

end Quiet

end Osquery.EventSubscribers
