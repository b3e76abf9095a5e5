import Osquery.Core.Members
import Osquery.Database.Plugin

/-!
# Database access from an extension

An extension has no database of its own. Its calls of the database API are
encoded as requests, maps from strings to strings, and the core decodes them and
calls the active plugin. One value travels in the request itself, and more than
one as the members of a JSON object whose strings are read back as C strings.
The range of a deletion is sent under a name that the receiver does not ask for.

## Implementation notes

The transport of a request between the processes is the identity. The request
`reset`, which no call of the six operations sends, is left out, and so is the
check that the database is initialized. A batch without entries reads past its
end when it is encoded; this is the outcome `none`.
-/

namespace Osquery.Database

open Foundation.JsonText Foundation.Numeral Core.Rows

abbrev PluginRequest := Std.ExtTreeMap String String

abbrev PluginResponse := List PluginRequest

/-- A field of a request, if it has it. -/
def field (request : PluginRequest) (name : String) : Option String := request[name]?

@[simp] theorem field_empty (name : String) : field ∅ name = none := by
  simp [field]

@[simp] theorem field_insert (request : PluginRequest) (name value name' : String) :
    field (request.insert name value) name' =
      if name = name' then some value else field request name' := by
  simp only [field, Std.ExtTreeMap.getElem?_insert, Std.compare_eq_iff_eq]

section Call

variable {σ : Type} (json : JsonLibrary) (P : DatabasePlugin σ)

/-- The members of a batch; only strings are supported. -/
def decodeMembers : List (String × Json) → Except String (List (String × String))
  | [] => .ok []
  | (name, .str value) :: rest =>
      match decodeMembers rest with
      | .ok data => .ok ((cstr name, cstr value) :: data)
      | .error e => .error e
  | _ :: _ => .error ("Database plugin putBatch action with an invalid json " ++
      "received. Only string values are supported")

/-- Read the JSON object of a batch. -/
def decodeBatch (text : String) : Except String (List (String × String)) :=
  match json.parse (cstr text) with
  | some (.obj members) => decodeMembers members
  | _ => .error "Cannot parse JSON: "

/-- `DatabasePlugin::call`: decode a request and call the plugin. -/
def DatabasePlugin.call (request : PluginRequest) (s : σ) :
    Except String Unit × PluginResponse × σ :=
  match field request "action" with
  | none => (.error "Database plugin must include a request action", [], s)
  | some action =>
      let domain := (field request "domain").getD ""
      let key := (field request "key").getD ""
      if action = "get" then
        match P.get s domain key with
        | .ok value => (.ok (), [(∅ : PluginRequest).insert "v" value], s)
        | .error e => (.error e, [(∅ : PluginRequest).insert "v" ""], s)
      else if action = "put" then
        match field request "value" with
        | none => (.error "Database plugin put action requires a value", [], s)
        | some value => ((P.put s domain key value).1, [], (P.put s domain key value).2)
      else if action = "putBatch" then
        match field request "json" with
        | none => (.error "Database plugin putBatch action requires a json-encoded value list",
            [], s)
        | some text =>
            match decodeBatch json text with
            | .error e => (.error e, [], s)
            | .ok data => ((P.putBatch s domain data).1, [], (P.putBatch s domain data).2)
      else if action = "remove" then
        ((P.remove s domain key).1, [], (P.remove s domain key).2)
      else if action = "remove_range" then
        let key_high := if (field request "high").isSome then (field request "key_high").getD "" else ""
        if key_high ≠ "" ∧ key ≠ "" then
          ((P.removeRange s domain key key_high).1, [], (P.removeRange s domain key key_high).2)
        else (.error "Missing range", [], s)
      else if action = "scan" then
        match stoull ((field request "max").getD "0"), field request "prefix" with
        | .ok max, some pre =>
            match P.scan s domain pre max with
            | .ok keys => (.ok (), keys.map fun k => (∅ : PluginRequest).insert "k" k, s)
            | .error e => (.error e, [], s)
        | _, _ => (.error "", [], s)
      else (.error "Unknown database plugin action", [], s)

/-! ### Encoding -/

/-- A request with an action on a domain. -/
def requestOf (action domain : String) : PluginRequest :=
  ((∅ : PluginRequest).insert "action" action).insert "domain" domain

def sendPutBatchDatabaseRequest (domain : String) (data : List (String × String)) (s : σ) :
    Except String Unit × σ :=
  let members := data.foldl (fun members p => addRef members p.1 p.2) []
  let r := P.call json ((requestOf "putBatch" domain).insert "json"
    (Core.Rows.toString json (.obj members))) s
  (r.1, r.2.2)

def sendPutDatabaseRequest (domain : String) (data : List (String × String)) (s : σ) :
    Option (Except String Unit × σ) :=
  match data with
  | [] => none
  | (key, value) :: _ =>
      let r := P.call json (((requestOf "put" domain).insert "key" key).insert "value" value) s
      some (r.1, r.2.2)

/-- `setDatabaseBatch` in an extension. -/
def sendBatch (domain : String) (data : List (String × String)) (s : σ) :
    Option (Except String Unit × σ) :=
  if data.length > 1 then some (sendPutBatchDatabaseRequest json P domain data s)
  else sendPutDatabaseRequest json P domain data s

/-- The value of a response, empty when there is none. -/
def responseValue (response : PluginResponse) : String :=
  match response with
  | [] => ""
  | first :: _ => (field first "v").getD ""

/-- The API calls of an extension. -/
def external {β : Type} (o : Operation β) (s : σ) : Option (Except String β × σ) :=
  if o.domain = "" then some (.error "Missing domain", s)
  else
    match o with
    | .get domain key =>
        let r := P.call json ((requestOf "get" domain).insert "key" key) s
        some (r.1.map fun _ => responseValue r.2.1, r.2.2)
    | .put domain key value => sendBatch json P domain [(key, value)] s
    | .putBatch domain data => sendBatch json P domain data s
    | .remove domain key =>
        let r := P.call json ((requestOf "remove" domain).insert "key" key) s
        some (r.1, r.2.2)
    | .removeRange domain low high =>
        let r := P.call json (((requestOf "remove_range" domain).insert "key" low).insert
          "key_high" high) s
        some (r.1, r.2.2)
    | .scan domain pre max =>
        let r := P.call json (((requestOf "scan" domain).insert "prefix" pre).insert
          "max" (toText max.toNat)) s
        some (r.1.map fun _ => r.2.1.filterMap fun item => field item "k", r.2.2)

/-- The API calls in the core. -/
def internal {β : Type} (o : Operation β) (s : σ) : Except String β × σ :=
  if o.domain = "" then (.error "Missing domain", s)
  else
    match o with
    | .get domain key => (P.get s domain key, s)
    | .put domain key value => P.putBatch s domain [(key, value)]
    | .putBatch domain data => P.putBatch s domain data
    | .remove domain key => P.remove s domain key
    | .removeRange domain low high => P.removeRange s domain low high
    | .scan domain pre max => (P.scan s domain pre max, s)

/-! ### What a request becomes -/

theorem external_get (s : σ) {domain : String} (hd : domain ≠ "") (key : String) :
    external json P (.get domain key) s = some (P.get s domain key, s) := by
  cases hget : P.get s domain key <;>
    simp [external, Operation.domain, hd, DatabasePlugin.call, requestOf, hget, Except.map,
      responseValue]

theorem external_remove (s : σ) {domain : String} (hd : domain ≠ "") (key : String) :
    external json P (.remove domain key) s = some (P.remove s domain key) := by
  simp [external, Operation.domain, hd, DatabasePlugin.call, requestOf]

/-- The receiver looks for another name than the one that is sent. -/
theorem external_removeRange (s : σ) {domain : String} (hd : domain ≠ "") (low high : String) :
    external json P (.removeRange domain low high) s = some (.error "Missing range", s) := by
  simp [external, Operation.domain, hd, DatabasePlugin.call, requestOf]

theorem external_scan (s : σ) {domain : String} (hd : domain ≠ "") (pre : String) (max : UInt64) :
    external json P (.scan domain pre max) s = some (P.scan s domain pre max, s) := by
  cases hscan : P.scan s domain pre max <;>
    simp [external, Operation.domain, hd, DatabasePlugin.call, requestOf, hscan, Except.map,
      List.filterMap_map]

theorem sendBatch_single (s : σ) (domain key value : String) :
    sendBatch json P domain [(key, value)] s = some (P.put s domain key value) := by
  simp [sendBatch, sendPutDatabaseRequest, DatabasePlugin.call, requestOf]

/-- The members that a batch is encoded as. -/
def batchMembers (data : List (String × String)) : List (String × Json) :=
  data.foldl (fun members p => addRef members p.1 p.2) []

theorem sendBatch_many (s : σ) (domain : String) {data : List (String × String)}
    (hlen : 1 < data.length) :
    sendBatch json P domain data s =
      some (match decodeMembers (batchMembers data) with
        | .error e => (.error e, s)
        | .ok decoded => P.putBatch s domain decoded) := by
  have hdecode : decodeBatch json (Core.Rows.toString json (.obj (batchMembers data))) =
      decodeMembers (batchMembers data) := by
    rw [decodeBatch, toString_eq_write, parse_cstr_write]
  have hsend : sendPutBatchDatabaseRequest json P domain data s =
      match decodeMembers (batchMembers data) with
        | .error e => (.error e, s)
        | .ok decoded => P.putBatch s domain decoded := by
    have hfold : data.foldl (fun members p => addRef members p.1 p.2) [] = batchMembers data := rfl
    simp [sendPutBatchDatabaseRequest, DatabasePlugin.call, requestOf, hfold, hdecode,
      -toString_eq_write]
    cases decodeMembers (batchMembers data) <;> rfl
  rw [sendBatch, if_pos hlen, hsend]

end Call

/-! ### What a batch becomes -/

theorem lastValue_concat (data : List (String × String)) (k v key : String) :
    lastValue (data ++ [(k, v)]) key = if k = key then some v else lastValue data key := by
  induction data with
  | nil => simp [lastValue]
  | cons p rest ih =>
      obtain ⟨k', v'⟩ := p
      rw [List.cons_append, lastValue, ih, lastValue]
      split <;> rfl

/-- The members hold the last value of every key, as strings. -/
structure EncodesBatch (members : List (String × Json)) (data : List (String × String)) : Prop where
  nodup : (members.map Prod.fst).Nodup
  strings : ∀ m ∈ members, ∃ v, m.2 = .str v
  mem_iff : ∀ k v, (k, Json.str v) ∈ members ↔ lastValue data k = some v

theorem EncodesBatch.addRef {members : List (String × Json)} {data : List (String × String)}
    (h : EncodesBatch members data) (k v : String) :
    EncodesBatch (addRef members k v) (data ++ [(k, v)]) := by
  have hperm := add_perm h.nodup k (.str v)
  rw [← addRef_eq_add] at hperm
  constructor
  · rw [(hperm.map Prod.fst).nodup_iff, List.map_cons, List.nodup_cons]
    refine ⟨?_, (List.filter_sublist.map _).nodup h.nodup⟩
    intro hmem
    obtain ⟨m, hm, heq⟩ := List.mem_map.mp hmem
    exact absurd heq (by simpa using (List.mem_filter.mp hm).2)
  · intro m hm
    rcases List.mem_cons.mp (hperm.mem_iff.mp hm) with rfl | hm
    · exact ⟨v, rfl⟩
    · exact h.strings m (List.mem_filter.mp hm).1
  · intro k' v'
    rw [hperm.mem_iff, lastValue_concat, List.mem_cons, List.mem_filter, h.mem_iff]
    by_cases hk : k = k'
    · subst hk
      simp [eq_comm]
    · simp [hk, Ne.symm hk]

theorem encodesBatch_batchMembers (data : List (String × String)) :
    EncodesBatch (batchMembers data) data := by
  induction data using List.reverseRecOn with
  | nil =>
      refine ⟨List.nodup_nil, ?_, ?_⟩
      · intro m hm
        exact absurd hm List.not_mem_nil
      · intro k v
        simp [batchMembers, lastValue]
  | append_singleton data p ih =>
      have hstep : batchMembers (data ++ [p]) = addRef (batchMembers data) p.1 p.2 := by
        rw [batchMembers, List.foldl_append]
        rfl
      rw [hstep]
      exact ih.addRef p.1 p.2

/-- The string of a member. -/
def stringOf : Json → String
  | .str v => v
  | _ => ""

/-- A member as it is read back. -/
def readMember (m : String × Json) : String × String := (cstr m.1, cstr (stringOf m.2))

theorem decodeMembers_strings {members : List (String × Json)}
    (h : ∀ m ∈ members, ∃ v, m.2 = .str v) :
    decodeMembers members = .ok (members.map readMember) := by
  induction members with
  | nil => rfl
  | cons m rest ih =>
      obtain ⟨v, hv⟩ := h m List.mem_cons_self
      obtain ⟨name, value⟩ := m
      obtain rfl : value = .str v := hv
      rw [decodeMembers, ih fun q hq => h q (List.mem_cons_of_mem _ hq)]
      rfl

/-- The entries of a batch as the receiver reads them. -/
def receivedBatch (data : List (String × String)) : List (String × String) :=
  (batchMembers data).map readMember

/-- No key and no value that counts has a NUL character. -/
def Lossless (data : List (String × String)) : Prop :=
  ∀ k v, lastValue data k = some v → '\x00' ∉ k.toList ∧ '\x00' ∉ v.toList

theorem readMember_of_lossless {data : List (String × String)} (h : Lossless data)
    {m : String × Json} (hm : m ∈ batchMembers data) : readMember m = (m.1, stringOf m.2) := by
  have henc := encodesBatch_batchMembers data
  obtain ⟨k, value⟩ := m
  obtain ⟨v, rfl⟩ := henc.strings _ hm
  obtain ⟨hk, hv⟩ := h k v ((henc.mem_iff k v).mp hm)
  rw [readMember, stringOf, cstr_of_no_nul hk, cstr_of_no_nul hv]

/-- What is received gives the same last values exactly when nothing is lost. -/
theorem lastValue_receivedBatch_iff (data : List (String × String)) :
    (∀ k, lastValue (receivedBatch data) k = lastValue data k) ↔ Lossless data := by
  have henc := encodesBatch_batchMembers data
  constructor
  · intro h k v hkv
    rw [← h k] at hkv
    obtain ⟨m, -, hm⟩ := List.mem_map.mp (mem_of_lastValue hkv)
    obtain ⟨rfl, rfl⟩ := Prod.mk.inj hm
    exact ⟨nul_not_mem_cstr _, nul_not_mem_cstr _⟩
  · intro h k
    have hnodup : ((receivedBatch data).map Prod.fst).Nodup := by
      have hkeys : (receivedBatch data).map Prod.fst = (batchMembers data).map Prod.fst := by
        rw [receivedBatch, List.map_map]
        apply List.map_congr_left
        intro m hm
        rw [Function.comp_apply, readMember_of_lossless h hm]
      rw [hkeys]
      exact henc.nodup
    apply Option.ext
    intro v
    rw [lastValue_of_nodup hnodup, ← henc.mem_iff, receivedBatch, List.mem_map]
    constructor
    · rintro ⟨m, hm, heq⟩
      rw [readMember_of_lossless h hm] at heq
      obtain ⟨rfl, rfl⟩ := Prod.mk.inj heq
      obtain ⟨w, hw⟩ := henc.strings m hm
      rw [hw, stringOf, ← hw]
      exact hm
    · intro hm
      exact ⟨_, hm, readMember_of_lossless h hm⟩

/-! ### Agreement of both ways -/

section Agreement

variable {σ : Type} (json : JsonLibrary) (P : KeyValuePlugin σ)

/-- An operation of an extension has the result and the effect that it has in
the core. -/
def Agrees {β : Type} (o : Operation β) (s : σ) : Prop :=
  ∃ r s', external json P.toDatabasePlugin o s = some (r, s') ∧
    r.toOption = (internal P.toDatabasePlugin o s).1.toOption ∧
    P.content s' = P.content (internal P.toDatabasePlugin o s).2

/-- The operations that the encoding carries. -/
def Transparent {β : Type} : Operation β → Prop
  | .putBatch domain data => domain = "" ∨
      (data ≠ [] ∧ (P.hasDomain domain → data.length ≤ 1 ∨ Lossless data))
  | .removeRange domain _ _ => domain = "" ∨ ¬P.hasDomain domain
  | _ => True

theorem agrees_of_eq {β : Type} {o : Operation β} {s : σ}
    (h : external json P.toDatabasePlugin o s = some (internal P.toDatabasePlugin o s)) :
    Agrees json P o s := ⟨_, _, h, rfl, rfl⟩

theorem agrees_of_domain_empty {β : Type} {o : Operation β} (hd : o.domain = "") (s : σ) :
    Agrees json P o s := by
  apply agrees_of_eq
  unfold external internal
  rw [if_pos hd, if_pos hd]

/-- A batch of at least two entries. -/
theorem external_putBatch_many (s : σ) {domain : String} (hd : domain ≠ "")
    {data : List (String × String)} (hlen : 1 < data.length) :
    external json P.toDatabasePlugin (.putBatch domain data) s =
      some (P.putBatch s domain (receivedBatch data)) := by
  rw [external, Operation.domain, if_neg hd, sendBatch_many json P.toDatabasePlugin s domain hlen,
    decodeMembers_strings (encodesBatch_batchMembers data).strings]
  rfl

theorem external_putBatch_single (s : σ) {domain : String} (hd : domain ≠ "")
    (p : String × String) :
    external json P.toDatabasePlugin (.putBatch domain [p]) s = some (P.putBatch s domain [p]) := by
  rw [external, Operation.domain, if_neg hd, sendBatch_single, P.put_eq]

theorem agrees_putBatch_many_iff (domain : String) (hd : domain ≠ "")
    (hhas : P.hasDomain domain) {data : List (String × String)} (hlen : 1 < data.length) :
    (∀ s, Agrees json P (.putBatch domain data) s) ↔ Lossless data := by
  have hint : ∀ s, internal P.toDatabasePlugin (.putBatch domain data) s =
      P.putBatch s domain data := fun s => if_neg hd
  constructor
  · intro h
    obtain ⟨r, s', hext, -, hcontent⟩ := h P.initial
    rw [external_putBatch_many json P P.initial hd hlen, Option.some_inj] at hext
    have hafter : (P.putBatch P.initial domain (receivedBatch data)).2 = s' :=
      congrArg Prod.snd hext
    rw [hint, ← hafter, P.content_putBatch _ _ _ hhas, P.content_putBatch _ _ _ hhas,
      P.content_initial] at hcontent
    rw [← lastValue_receivedBatch_iff]
    intro k
    have hk := congrFun (congrFun hcontent domain) k
    rw [Contents.storeAll_apply, Contents.storeAll_apply, if_pos rfl, if_pos rfl] at hk
    simpa [Contents.empty] using hk
  · intro h s
    refine ⟨_, _, external_putBatch_many json P s hd hlen, ?_, ?_⟩
    · rw [hint, P.putBatch_ok _ _ _ hhas, P.putBatch_ok _ _ _ hhas]
    · rw [hint, P.content_putBatch _ _ _ hhas, P.content_putBatch _ _ _ hhas]
      exact Contents.storeAll_congr ((lastValue_receivedBatch_iff data).mpr h) _ _

theorem agrees_putBatch_iff (domain : String) (data : List (String × String)) :
    (∀ s, Agrees json P (.putBatch domain data) s) ↔ Transparent P (.putBatch domain data) := by
  by_cases hd : domain = ""
  · exact ⟨fun _ => Or.inl hd,
      fun _ s => agrees_of_domain_empty (o := .putBatch domain data) json P hd s⟩
  have hint : ∀ s, internal P.toDatabasePlugin (.putBatch domain data) s =
      P.putBatch s domain data := fun s => if_neg hd
  rw [Transparent, or_iff_right hd]
  match data with
  | [] =>
      refine ⟨fun h => ?_, fun h => absurd rfl h.1⟩
      obtain ⟨r, s', hext, -⟩ := h P.initial
      rw [external, Operation.domain, if_neg hd] at hext
      exact absurd hext (by simp [sendBatch, sendPutDatabaseRequest])
  | [p] =>
      refine ⟨fun _ => ⟨List.cons_ne_nil _ _, fun _ => Or.inl (le_refl 1)⟩, fun _ s => ?_⟩
      apply agrees_of_eq
      rw [external_putBatch_single json P s hd p, hint]
  | first :: second :: rest =>
      have hlen : 1 < (first :: second :: rest).length := by simp
      by_cases hhas : P.hasDomain domain
      · rw [agrees_putBatch_many_iff json P domain hd hhas hlen]
        refine ⟨fun h => ⟨List.cons_ne_nil _ _, fun _ => Or.inr h⟩, fun h => ?_⟩
        exact (h.2 hhas).resolve_left (not_le.mpr hlen)
      · refine ⟨fun _ => ⟨List.cons_ne_nil _ _, fun h => absurd h hhas⟩, fun _ s => ?_⟩
        obtain ⟨hfail, hsame⟩ := P.putBatch_refused s domain
          (receivedBatch (first :: second :: rest)) hhas
        obtain ⟨hfail', hsame'⟩ := P.putBatch_refused s domain (first :: second :: rest) hhas
        refine ⟨_, _, external_putBatch_many json P s hd hlen, ?_, ?_⟩
        · rw [hint, hfail, hfail']
        · rw [hint, hsame, hsame']

theorem agrees_removeRange_iff (domain low high : String) :
    (∀ s, Agrees json P (.removeRange domain low high) s) ↔
      Transparent P (.removeRange domain low high) := by
  by_cases hd : domain = ""
  · exact ⟨fun _ => Or.inl hd,
      fun _ s => agrees_of_domain_empty (o := .removeRange domain low high) json P hd s⟩
  have hint : ∀ s, internal P.toDatabasePlugin (.removeRange domain low high) s =
      P.removeRange s domain low high := fun s => if_neg hd
  rw [Transparent, or_iff_right hd]
  constructor
  · intro h hhas
    obtain ⟨r, s', hext, hstatus, -⟩ := h P.initial
    rw [external_removeRange json _ _ hd, Option.some_inj] at hext
    have hr : .error "Missing range" = r := congrArg Prod.fst hext
    rw [hint, ← hr, P.removeRange_ok _ _ _ _ hhas] at hstatus
    cases hstatus
  · intro hhas s
    obtain ⟨hfail, hsame⟩ := P.removeRange_refused s domain low high hhas
    refine ⟨_, _, external_removeRange json _ s hd low high, ?_, ?_⟩
    · rw [hint, hfail]
      rfl
    · rw [hint, hsame]

/-- Access from an extension agrees with access in the core, in every state of
the store, exactly for the operations that the encoding carries. -/
theorem external_agrees_iff {β : Type} (o : Operation β) :
    (∀ s, Agrees json P o s) ↔ Transparent P o := by
  by_cases hd : o.domain = ""
  · refine ⟨fun _ => ?_, fun _ s => agrees_of_domain_empty json P hd s⟩
    cases o with
    | putBatch domain data => exact Or.inl hd
    | removeRange domain low high => exact Or.inl hd
    | _ => trivial
  cases o with
  | putBatch domain data => exact agrees_putBatch_iff json P domain data
  | removeRange domain low high => exact agrees_removeRange_iff json P domain low high
  | get domain key =>
      refine ⟨fun _ => trivial, fun _ s => agrees_of_eq json P ?_⟩
      rw [internal, if_neg hd]
      exact external_get json _ s hd key
  | put domain key value =>
      refine ⟨fun _ => trivial, fun _ s => agrees_of_eq json P ?_⟩
      rw [internal, if_neg hd]
      exact external_putBatch_single json P s hd (key, value)
  | remove domain key =>
      refine ⟨fun _ => trivial, fun _ s => agrees_of_eq json P ?_⟩
      rw [internal, if_neg hd]
      exact external_remove json _ s hd key
  | scan domain pre max =>
      refine ⟨fun _ => trivial, fun _ s => agrees_of_eq json P ?_⟩
      rw [internal, if_neg hd]
      exact external_scan json _ s hd pre max

/-- A range of keys that an extension deletes is refused. -/
theorem external_removeRange_disagrees :
    ¬∀ (o : Operation Unit) (db : Core.BackingStore.Database),
      Agrees reference (ephemeral fun _ => []) o db := by
  intro h
  obtain ⟨r, s', hext, hstatus, -⟩ := h (.removeRange "events" "a" "b")
    ((∅ : Core.BackingStore.Database).insert "events" ((∅ : Core.BackingStore.Domain).insert
      "a" "1"))
  rw [external_removeRange reference _ _ (by decide), Option.some_inj] at hext
  have hr : .error "Missing range" = r := congrArg Prod.fst hext
  rw [← hr] at hstatus
  exact absurd hstatus (by simp [internal, Operation.domain, ephemeral, ephemeralPlugin, Except.toOption])

end Agreement

end Osquery.Database
