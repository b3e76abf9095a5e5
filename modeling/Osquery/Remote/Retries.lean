import Osquery.Core.Members
import Osquery.Core.Status

/-!
# Retried requests

A request takes the members that control it out of its parameters and puts some of them back.
Before the next attempt the loop adds every member whose name starts with an underscore again,
under the name that its text has as a C string.

## Implementation notes

What an attempt meets is an input: the node key at that time, the status of the call, the answer
of the server, which is an object, and the status of serializing it. A member that is asserted to
be a string or a boolean ends the process if it is not. What is sent is what the request is
called with. The time between two attempts is left out.
-/

namespace Osquery.Remote.Retries

open Osquery.Core Osquery.Core.Rows Foundation.JsonText

abbrev Members := List (String × Json)

structure Flags where
  tls_node_api : Bool
  tls_hostname : String
  disable_reenrollment : Bool

/-- What an attempt meets. -/
structure Answer where
  node_key : String
  call : Status
  response : Status
  output : Members
  serialize : Status

/-- What the request is called with. -/
structure Sent where
  uri : String
  hostname : String
  compress : Bool
  /-- The parameters of a POST. -/
  body : Option Members

/-- `RemoveMember`, if there is such a member. -/
def removeNamed (members : Members) (key : String) : Members :=
  match members.findIdx? (fun m => m.1 == key) with
  | none => members
  | some i => removeMember members i

/-- The message of an error of the server. -/
def errorText : Json → String
  | .str s => cstr s
  | _ => "<unknown>"

/-- The status of a call, and whether the node key was cleared. -/
def checkAnswer (flags : Flags) (answer : Answer) : Option (Status × Bool) :=
  if !answer.call.ok then some (answer.call, false)
  else if !answer.response.ok then some (answer.response, false)
  else
    let error := findMember answer.output "error"
    match findMember answer.output "node_invalid" with
    | some (.bool true) =>
        let message := "Request failed: Invalid node key"
        some (⟨1, message ++ (error.map fun value => ": " ++ errorText value).getD ""⟩,
          !flags.disable_reenrollment)
    | some (.bool false) | none =>
        match error with
        | none => some (⟨0, "OK"⟩, false)
        | some value => some (⟨1, "Request failed: " ++ errorText value⟩, false)
    | some _ => none

/-- An attempt: what is sent, unless an assertion fails before, and the parameters and the status
after it, unless one fails. -/
structure Attempt where
  sent : Option Sent
  result : Option (Members × Status × Bool)

/-- Whether the parameters force a POST, if they have a string for it. -/
def forcePost (verb : Option Json) : Option Bool :=
  match verb with
  | none => some false
  | some (.str s) => some (cstr s == "POST")
  | some _ => none

/-- `go` with parameters and a document for the output. -/
def goOnce (flags : Flags) (uri : String) (params : Members) (answer : Answer) : Attempt :=
  let uri_suffix := if flags.tls_node_api then "&node_key=" ++ answer.node_key else ""
  let params :=
    if flags.tls_node_api then params else add params "node_key" (.str answer.node_key)
  let compress := (findMember params "_compress").isSome
  let params := removeNamed params "_compress"
  match forcePost (findMember params "_verb") with
  | none => ⟨none, none⟩
  | some force_post =>
      let params := removeNamed params "_verb"
      let use_post := (findMember params "_get").isNone
      let params := removeNamed params "_get"
      let sent : Sent :=
        ⟨uri ++ uri_suffix, flags.tls_hostname, compress,
          if use_post || force_post then some params else none⟩
      let params := if force_post then add params "_verb" (.str "POST") else params
      let params := if compress then add params "_compress" (.bool true) else params
      ⟨some sent, (checkAnswer flags answer).map fun status => (params, status)⟩

/-- `go` with a text for the output. -/
def goText (flags : Flags) (uri : String) (params : Members) (answer : Answer) : Attempt :=
  let attempt := goOnce flags uri params answer
  ⟨attempt.sent, attempt.result.map fun (params, status, cleared) =>
    (params, if status.ok then answer.serialize else status, cleared)⟩

/-- The members that are put back before another attempt. -/
def overrideParams (params : Members) : Members :=
  params.foldl (fun override_params m =>
    let name := cstr m.1
    if name.toList.head? = some '_' then add override_params name m.2 else override_params) []

/-- The rounds of the loop, with the requests that are sent and the status at the end. -/
def retry (flags : Flags) (uri : String) (override_params : Members) (answers : ℕ → Answer) :
    (remaining i : ℕ) → Members → Status → List Sent × Option Status
  | 0, _, _, s => ([], some s)
  | remaining + 1, i, params, _ =>
      let attempt := goText flags uri params (answers i)
      match attempt.result with
      | none => (attempt.sent.toList, none)
      | some (params, s, _) =>
          if s.ok ∨ remaining = 0 then (attempt.sent.toList, some s)
          else
            let params := override_params.foldl (fun params m => add params (cstr m.1) m.2) params
            let rest := retry flags uri override_params answers remaining (i + 1) params s
            (attempt.sent.toList ++ rest.1, rest.2)

/-- `go` with a number of attempts. -/
def go (flags : Flags) (uri : String) (params : Members) (attempts : ℕ) (answers : ℕ → Answer) :
    List Sent × Option Status :=
  retry flags uri (overrideParams params) answers attempts 1 params ⟨0, "OK"⟩

/-! ### Members by name -/

theorem add_eq_append (members : Members) (key : String) (value : Json) :
    add members key value = removeNamed members key ++ [(key, value)] := rfl

theorem removeNamed_perm {members : Members} (h : Distinct members) (key : String) :
    (removeNamed members key).Perm (members.filter (·.1 ≠ key)) := by
  have hadd := add_perm h key .null
  rw [add_eq_append] at hadd
  exact ((List.perm_append_singleton _ _).symm.trans hadd).cons_inv

theorem distinct_removeNamed {members : Members} (h : Distinct members) (key : String) :
    Distinct (removeNamed members key) := by
  rw [Distinct, ((removeNamed_perm h key).map Prod.fst).nodup_iff]
  exact (List.filter_sublist.map _).nodup h

theorem findMember_removeNamed {members : Members} (h : Distinct members) (key name : String) :
    findMember (removeNamed members key) name =
      if key = name then none else findMember members name := by
  apply Option.ext
  intro value
  rw [findMember_eq_some_iff (distinct_removeNamed h key), (removeNamed_perm h key).mem_iff,
    List.mem_filter, ← findMember_eq_some_iff h]
  by_cases hk : key = name
  · simp [hk]
  · simp [hk, Ne.symm hk]

/-- Members that are added one after the other; of those with one name the last one counts. -/
theorem foldl_add (f : String × Json → String) (added : Members) {members : Members}
    (h : Distinct members) :
    Distinct (added.foldl (fun members m => add members (f m) m.2) members) ∧
      ∀ name, findMember (added.foldl (fun members m => add members (f m) m.2) members) name =
        (((added.filter fun m => f m = name).getLast?).map Prod.snd).or
          (findMember members name) := by
  induction added generalizing members with
  | nil => exact ⟨h, fun name => rfl⟩
  | cons m added ih =>
      obtain ⟨hdistinct, hfind⟩ := ih (h.add (f m) m.2)
      refine ⟨hdistinct, fun name => ?_⟩
      rw [List.foldl_cons, hfind, findMember_add h]
      by_cases hname : f m = name
      · rw [if_pos hname, List.filter_cons_of_pos (by simpa using hname), List.getLast?_cons]
        cases (added.filter fun m => f m = name).getLast? <;> rfl
      · rw [if_neg hname, List.filter_cons_of_neg (by simpa using hname)]

/-! ### The members that are put back -/

/-- The last member whose name starts with an underscore and is the given one as a C string. -/
def cutMember (params : Members) (name : String) : Option Json :=
  ((params.filter fun m =>
    (cstr m.1).toList.head? = some '_' ∧ cstr m.1 = name).getLast?).map Prod.snd

/-- The members with those that are put back. -/
def putBack (params : Members) (name : String) : Option Json :=
  (cutMember params name).or (findMember params name)

theorem overrideParams_eq (params : Members) :
    overrideParams params =
      (params.filter fun m => (cstr m.1).toList.head? = some '_').foldl
        (fun members m => add members (cstr m.1) m.2) [] := by
  rw [List.foldl_filter]
  simp only [decide_eq_true_eq]
  rfl

theorem distinct_overrideParams (params : Members) : Distinct (overrideParams params) := by
  rw [overrideParams_eq]
  exact (foldl_add (fun m => cstr m.1) _ distinct_nil).1

theorem findMember_overrideParams (params : Members) (name : String) :
    findMember (overrideParams params) name = cutMember params name := by
  rw [overrideParams_eq, (foldl_add (fun m => cstr m.1) _ distinct_nil).2, List.filter_filter,
    cutMember]
  have hnone : findMember [] name = none := rfl
  rw [hnone, Option.or_none]
  simp only [Bool.decide_and, Bool.and_comm]

/-- The names that are put back are C strings. -/
theorem cstr_of_cutMember {params : Members} {name : String} {value : Json}
    (h : cutMember params name = some value) :
    cstr name = name ∧ name.toList.head? = some '_' := by
  obtain ⟨m, hm, -⟩ := Option.map_eq_some_iff.mp h
  have hmem := List.mem_of_getLast? hm
  rw [List.mem_filter, decide_eq_true_eq] at hmem
  obtain ⟨-, hhead, rfl⟩ := hmem
  exact ⟨cstr_cstr m.1, hhead⟩

/-- Of members with distinct names there is one with a name at most. -/
theorem getLast?_filter_eq {members : Members} (h : Distinct members) (name : String) :
    ((members.filter fun m => m.1 = name).getLast?).map Prod.snd = findMember members name := by
  apply Option.ext
  intro value
  rw [findMember_eq_some_iff h, Option.map_eq_some_iff]
  constructor
  · rintro ⟨m, hm, rfl⟩
    have hmem := List.mem_of_getLast? hm
    rw [List.mem_filter, decide_eq_true_eq] at hmem
    exact hmem.2 ▸ hmem.1
  · intro hvalue
    have hne : (members.filter fun m => m.1 = name) ≠ [] :=
      List.ne_nil_of_mem (List.mem_filter.mpr ⟨hvalue, decide_eq_true rfl⟩)
    obtain ⟨m, hm⟩ := Option.isSome_iff_exists.mp (List.getLast?_isSome.mpr hne)
    have hmem := List.mem_of_getLast? hm
    rw [List.mem_filter, decide_eq_true_eq] at hmem
    have hfound := (findMember_eq_some_iff h).mpr (hmem.2 ▸ hmem.1 : (name, m.2) ∈ members)
    rw [(findMember_eq_some_iff h).mpr hvalue] at hfound
    exact ⟨m, hm, (Option.some.inj hfound).symm⟩

/-- The loop puts the members back over what is there. -/
theorem foldl_overrideParams (params : Members) {members : Members} (h : Distinct members) :
    Distinct ((overrideParams params).foldl (fun members m => add members (cstr m.1) m.2) members) ∧
      ∀ name, findMember ((overrideParams params).foldl
          (fun members m => add members (cstr m.1) m.2) members) name =
        (cutMember params name).or (findMember members name) := by
  obtain ⟨hdistinct, hfind⟩ := foldl_add (fun m => cstr m.1) (overrideParams params) h
  refine ⟨hdistinct, fun name => ?_⟩
  have hnames : ∀ m ∈ overrideParams params, cstr m.1 = m.1 := by
    intro m hm
    have hcut := (findMember_eq_some_iff (distinct_overrideParams params)).mpr
      (show (m.1, m.2) ∈ overrideParams params from hm)
    rw [findMember_overrideParams] at hcut
    exact (cstr_of_cutMember hcut).1
  have hfilter : ((overrideParams params).filter fun m => cstr m.1 = name) =
      (overrideParams params).filter fun m => m.1 = name :=
    List.filter_congr fun m hm => by rw [hnames m hm]
  rw [hfind, hfilter, getLast?_filter_eq (distinct_overrideParams params),
    findMember_overrideParams]

/-- A member whose name starts with an underscore and has no NUL is put back, or another one is
under its name. -/
theorem cutMember_ne_none {params : Members} (h : Distinct params) {name : String}
    (hname : cstr name = name) (hhead : name.toList.head? = some '_')
    (hfound : findMember params name ≠ none) : cutMember params name ≠ none := by
  obtain ⟨value, hvalue⟩ := Option.ne_none_iff_exists'.mp hfound
  have hmem := (findMember_eq_some_iff h).mp hvalue
  rw [cutMember, ne_eq, Option.map_eq_none_iff, List.getLast?_eq_none_iff, ← ne_eq]
  refine List.ne_nil_of_mem (List.mem_filter.mpr ⟨hmem, decide_eq_true ?_⟩)
  rw [hname]
  exact ⟨hhead, rfl⟩

/-! ### An attempt -/

def IsControl (name : String) : Prop := name = "_compress" ∨ name = "_verb" ∨ name = "_get"

instance (name : String) : Decidable (IsControl name) :=
  inferInstanceAs (Decidable (name = "_compress" ∨ name = "_verb" ∨ name = "_get"))

/-- Whether parameters are sent with a POST. -/
def posts (F : String → Option Json) : Bool :=
  (F "_get").isNone || forcePost (F "_verb") == some true

/-- The member of a body: the node key or a member that does not control the request. -/
def bodyMember (flags : Flags) (answer : Answer) (F : String → Option Json)
    (name : String) : Option Json :=
  if flags.tls_node_api = false ∧ name = "node_key" then some (.str answer.node_key)
  else if IsControl name then none
  else F name

/-- A request that is made of parameters. -/
structure Describes (flags : Flags) (answer : Answer) (F : String → Option Json) (sent : Sent) :
    Prop where
  possible : forcePost (F "_verb") ≠ none
  compress : sent.compress = (F "_compress").isSome
  post : sent.body.isSome = posts F
  body : ∀ body, sent.body = some body →
    Distinct body ∧ ∀ name, findMember body name = bodyMember flags answer F name

/-- Parameters with the given members, where the node key may be an older one. -/
def Shows (flags : Flags) (params : Members) (F : String → Option Json) : Prop :=
  Distinct params ∧
    ∀ name, flags.tls_node_api = true ∨ name ≠ "node_key" → findMember params name = F name

/-- The parameters of a request without those that control it. -/
def stripped (flags : Flags) (params : Members) (answer : Answer) : Members :=
  removeNamed (removeNamed (removeNamed
    (if flags.tls_node_api then params else add params "node_key" (.str answer.node_key))
      "_compress") "_verb") "_get"

/-- The parameters after an attempt. -/
def restored (flags : Flags) (params : Members) (answer : Answer) (force_post compress : Bool) :
    Members :=
  let params := stripped flags params answer
  let params := if force_post then add params "_verb" (.str "POST") else params
  if compress then add params "_compress" (.bool true) else params

variable {flags : Flags} {params : Members} {F : String → Option Json}

theorem Shows.withKey (h : Shows flags params F) (answer : Answer) :
    Distinct (if flags.tls_node_api then params
        else add params "node_key" (.str answer.node_key)) ∧
      ∀ name, findMember (if flags.tls_node_api then params
          else add params "node_key" (.str answer.node_key)) name =
        if flags.tls_node_api = false ∧ name = "node_key" then some (.str answer.node_key)
        else F name := by
  cases hapi : flags.tls_node_api with
  | true =>
      refine ⟨h.1, fun name => ?_⟩
      rw [if_pos rfl, if_neg (by simp), h.2 name (Or.inl hapi)]
  | false =>
      refine ⟨h.1.add _ _, fun name => ?_⟩
      rw [if_neg Bool.false_ne_true, findMember_add h.1]
      by_cases hname : name = "node_key"
      · rw [if_pos hname.symm, if_pos ⟨rfl, hname⟩]
      · rw [if_neg (Ne.symm hname), if_neg (by simp [hname]), h.2 name (Or.inr hname)]

/-- The parameters of a request, one by one. -/
theorem Shows.stripped (h : Shows flags params F) (answer : Answer) :
    Distinct (stripped flags params answer) ∧
      ∀ name, findMember (stripped flags params answer) name = bodyMember flags answer F name := by
  obtain ⟨hdistinct, hfind⟩ := h.withKey answer
  have hcompress := distinct_removeNamed hdistinct "_compress"
  have hverb := distinct_removeNamed hcompress "_verb"
  refine ⟨distinct_removeNamed hverb "_get", fun name => ?_⟩
  rw [Retries.stripped, findMember_removeNamed hverb, findMember_removeNamed hcompress,
    findMember_removeNamed hdistinct, hfind, bodyMember]
  by_cases hkey : flags.tls_node_api = false ∧ name = "node_key"
  · rw [if_pos hkey, if_pos hkey, hkey.2, if_neg (by decide), if_neg (by decide),
      if_neg (by decide)]
  · rw [if_neg hkey, if_neg hkey]
    by_cases hcontrol : IsControl name
    · rw [if_pos hcontrol]
      rcases hcontrol with rfl | rfl | rfl <;> simp
    · rw [if_neg hcontrol]
      simp only [IsControl, not_or] at hcontrol
      rw [if_neg (Ne.symm hcontrol.2.2), if_neg (Ne.symm hcontrol.2.1), if_neg (Ne.symm hcontrol.1)]

/-- What an attempt sends and leaves. -/
theorem goOnce_eq (h : Shows flags params F) (uri : String) (answer : Answer) :
    goOnce flags uri params answer =
      match forcePost (F "_verb") with
      | none => ⟨none, none⟩
      | some force_post =>
          ⟨some ⟨uri ++ (if flags.tls_node_api then "&node_key=" ++ answer.node_key else ""),
              flags.tls_hostname, (F "_compress").isSome,
              if posts F then some (stripped flags params answer) else none⟩,
            (checkAnswer flags answer).map fun status =>
              (restored flags params answer force_post (F "_compress").isSome, status)⟩ := by
  obtain ⟨hdistinct, hfind⟩ := h.withKey answer
  have hcompress := distinct_removeNamed hdistinct "_compress"
  rw [goOnce]
  simp only [findMember_removeNamed hcompress, findMember_removeNamed hdistinct, hfind,
    String.reduceEq, and_false, if_false]
  cases hforce : forcePost (F "_verb") with
  | none => rfl
  | some force_post =>
      have hposts : posts F = ((F "_get").isNone || force_post) := by
        rw [posts, hforce]
        cases force_post <;> rfl
      rw [hposts]
      rfl

/-- The parameters after an attempt, one by one. -/
theorem Shows.restored (h : Shows flags params F) (answer : Answer) (force_post compress : Bool) :
    Distinct (restored flags params answer force_post compress) ∧
      ∀ name, findMember (restored flags params answer force_post compress) name =
        if compress = true ∧ name = "_compress" then some (.bool true)
        else if force_post = true ∧ name = "_verb" then some (.str "POST")
        else bodyMember flags answer F name := by
  obtain ⟨hdistinct, hfind⟩ := h.stripped answer
  have hverb : Distinct (if force_post then
        add (Retries.stripped flags params answer) "_verb" (.str "POST")
      else Retries.stripped flags params answer) ∧
      ∀ name, findMember (if force_post then
          add (Retries.stripped flags params answer) "_verb" (.str "POST")
        else Retries.stripped flags params answer) name =
          if force_post = true ∧ name = "_verb" then some (.str "POST")
          else bodyMember flags answer F name := by
    cases force_post with
    | false => exact ⟨hdistinct, fun name => by simp [hfind]⟩
    | true =>
        refine ⟨hdistinct.add _ _, fun name => ?_⟩
        rw [if_pos rfl, findMember_add hdistinct, hfind]
        simp only [true_and, eq_comm]
  rw [Retries.restored]
  cases compress with
  | false => exact ⟨hverb.1, fun name => by simp [hverb.2]⟩
  | true =>
      refine ⟨hverb.1.add _ _, fun name => ?_⟩
      rw [if_pos rfl, findMember_add hverb.1, hverb.2]
      simp only [true_and, eq_comm]

/-! ### The attempts -/

section Attempts

variable {original : Members}

/-- Members that give the same ones when those of the original parameters are put back. -/
structure Regular (original : Members) (F : String → Option Json) : Prop where
  put : ∀ name, (cutMember original name).or (F name) = putBack original name
  control : ∀ name, IsControl name → cutMember original name = none → F name = none

theorem control_eq_none (h : Distinct original) {name : String} (hname : IsControl name)
    (hcut : cutMember original name = none) : findMember original name = none := by
  by_contra hfound
  refine cutMember_ne_none h ?_ ?_ hfound hcut
  · rcases hname with rfl | rfl | rfl <;> decide
  · rcases hname with rfl | rfl | rfl <;> decide

theorem regular_original (h : Distinct original) : Regular original (findMember original) :=
  ⟨fun _ => rfl, fun _ => control_eq_none h⟩

theorem regular_putBack (h : Distinct original) : Regular original (putBack original) := by
  refine ⟨fun name => ?_, fun name hname hcut => ?_⟩
  · rw [putBack]
    cases cutMember original name <;> rfl
  · rw [putBack, hcut, Option.none_or, control_eq_none h hname hcut]

/-- Before the next attempt the parameters are the original ones with those put back. -/
theorem Shows.next (hregular : Regular original F) (h : Shows flags params F) (answer : Answer)
    {force_post : Bool} (hforce : forcePost (F "_verb") = some force_post) :
    Shows flags ((overrideParams original).foldl (fun members m => add members (cstr m.1) m.2)
      (Retries.restored flags params answer force_post (F "_compress").isSome))
      (putBack original) := by
  obtain ⟨hdistinct, hfind⟩ := h.restored answer force_post (F "_compress").isSome
  obtain ⟨hdistinct', hfind'⟩ := foldl_overrideParams original hdistinct
  refine ⟨hdistinct', fun name hname => ?_⟩
  rw [hfind', hfind, ← hregular.put]
  cases hcut : cutMember original name with
  | some value => rfl
  | none =>
      have hkey : ¬(flags.tls_node_api = false ∧ name = "node_key") := by
        rintro ⟨hapi, hnode⟩
        rcases hname with hname | hname
        · rw [hapi] at hname
          cases hname
        · exact hname hnode
      rw [Option.none_or, Option.none_or, bodyMember, if_neg hkey]
      by_cases hcontrol : IsControl name
      · have hnone := hregular.control name hcontrol hcut
        have hcompress : ¬((F "_compress").isSome = true ∧ name = "_compress") := by
          rintro ⟨hsome, rfl⟩
          rw [hnone] at hsome
          cases hsome
        have hverb : ¬(force_post = true ∧ name = "_verb") := by
          rintro ⟨rfl, rfl⟩
          rw [hnone] at hforce
          cases hforce
        rw [if_neg hcompress, if_neg hverb, if_pos hcontrol, hnone]
      · rw [if_neg hcontrol]
        simp only [IsControl, not_or] at hcontrol
        rw [if_neg fun hc => hcontrol.1 hc.2, if_neg fun hc => hcontrol.2.1 hc.2]

/-- What is sent is described by the parameters. -/
theorem describes_of_shows (h : Shows flags params F) (uri : String) (answer : Answer)
    {sent : Sent} (hsent : (goOnce flags uri params answer).sent = some sent) :
    Describes flags answer F sent := by
  rw [goOnce_eq h] at hsent
  cases hforce : forcePost (F "_verb") with
  | none =>
      rw [hforce] at hsent
      cases hsent
  | some force_post =>
      rw [hforce] at hsent
      obtain rfl := Option.some.inj hsent
      refine ⟨by rw [hforce]; exact Option.some_ne_none _, rfl, ?_, ?_⟩
      · cases posts F <;> rfl
      · intro body hbody
        cases hposts : posts F with
        | false =>
            simp only [hposts, Bool.false_eq_true, if_false] at hbody
            cases hbody
        | true =>
            simp only [hposts, if_true] at hbody
            obtain rfl := Option.some.inj hbody
            exact h.stripped answer

/-- A round of the loop sends at most one request, and may go on. -/
theorem retry_succ (uri : String) (override_params : Members) (answers : ℕ → Answer)
    (remaining i : ℕ) (params : Members) (s : Status) :
    (retry flags uri override_params answers (remaining + 1) i params s).1 =
        (goText flags uri params (answers i)).sent.toList ∨
      ∃ params' s' cleared, (goText flags uri params (answers i)).result =
          some (params', s', cleared) ∧
        (retry flags uri override_params answers (remaining + 1) i params s).1 =
          (goText flags uri params (answers i)).sent.toList ++
            (retry flags uri override_params answers remaining (i + 1)
              (override_params.foldl (fun members m => add members (cstr m.1) m.2) params')
              s').1 := by
  rw [retry]
  cases hresult : (goText flags uri params (answers i)).result with
  | none => exact Or.inl rfl
  | some result =>
      obtain ⟨params', s', cleared⟩ := result
      simp only
      split
      · exact Or.inl rfl
      · exact Or.inr ⟨params', s', cleared, rfl, rfl⟩

/-- What an attempt leaves is the restored parameters. -/
theorem exists_of_result (h : Shows flags params F) {uri : String} {answer : Answer}
    {params' : Members} {s : Status} {cleared : Bool}
    (hresult : (goText flags uri params answer).result = some (params', s, cleared)) :
    ∃ force_post, forcePost (F "_verb") = some force_post ∧
      params' = Retries.restored flags params answer force_post (F "_compress").isSome := by
  have hgo := goOnce_eq h uri answer
  cases hforce : forcePost (F "_verb") with
  | none =>
      rw [hforce] at hgo
      rw [goText, hgo] at hresult
      cases hresult
  | some force_post =>
      rw [hforce] at hgo
      rw [goText, hgo] at hresult
      refine ⟨force_post, rfl, ?_⟩
      obtain ⟨outcome, houtcome, heq⟩ := Option.map_eq_some_iff.mp hresult
      obtain ⟨status, -, rfl⟩ := Option.map_eq_some_iff.mp houtcome
      exact (congrArg Prod.fst heq).symm

/-- The first request is described by the parameters, and the others by those with the members
that are put back. -/
theorem describes_of_retry (h : Distinct original) {uri : String} {answers : ℕ → Answer}
    {remaining : ℕ} : ∀ {i : ℕ} {params : Members} {s : Status} {F : String → Option Json},
    Regular original F → Shows flags params F → ∀ {k : ℕ} {sent : Sent},
      (retry flags uri (overrideParams original) answers remaining i params s).1[k]? = some sent →
        Describes flags (answers (i + k)) (if k = 0 then F else putBack original) sent := by
  induction remaining with
  | zero => intro i params s F _ _ k sent hsent; cases hsent
  | succ remaining ih =>
      intro i params s F hregular hshows k sent hsent
      have hfirst : ∀ {k : ℕ}, (goText flags uri params (answers i)).sent.toList[k]? = some sent →
          Describes flags (answers (i + k)) (if k = 0 then F else putBack original) sent := by
        intro k hk
        cases hcall : (goText flags uri params (answers i)).sent with
        | none =>
            rw [hcall] at hk
            cases hk
        | some first =>
            rw [hcall, Option.toList_some, List.getElem?_singleton] at hk
            split at hk
            · next hzero =>
                obtain rfl := Option.some.inj hk
                rw [hzero, if_pos rfl]
                exact describes_of_shows hshows uri (answers i) hcall
            · cases hk
      rcases retry_succ uri (overrideParams original) answers remaining i params s with
        heq | ⟨params', s', cleared, hresult, heq⟩
      · rw [heq] at hsent
        exact hfirst hsent
      · rw [heq] at hsent
        obtain ⟨force_post, hforce, rfl⟩ := exists_of_result hshows hresult
        have hnext := hshows.next hregular (answers i) hforce
        rcases Nat.lt_or_ge k (goText flags uri params (answers i)).sent.toList.length with hk | hk
        · rw [List.getElem?_append_left hk] at hsent
          exact hfirst hsent
        · have hlength : (goText flags uri params (answers i)).sent.toList.length = 1 := by
            rw [goText, goOnce_eq hshows, hforce]
            rfl
          rw [List.getElem?_append_right hk, hlength] at hsent
          rw [hlength] at hk
          have hlater := ih (regular_putBack h) hnext hsent
          rw [ite_self, Nat.add_assoc, Nat.add_sub_cancel' hk] at hlater
          rw [if_neg (Nat.one_le_iff_ne_zero.mp hk)]
          exact hlater

/-- An answer without a connection. -/
def refused : Answer := ⟨"", ⟨1, "Request error"⟩, ⟨0, "OK"⟩, [], ⟨0, "OK"⟩⟩

/-- Two attempts that are made send two requests. -/
theorem exists_two_sent (h : Distinct original) (flags : Flags) (uri : String)
    (hfirst : forcePost (findMember original "_verb") ≠ none)
    (hsecond : forcePost (putBack original "_verb") ≠ none) :
    ∃ first second,
      (go flags uri original 2 fun _ => refused).1 = [first, second] := by
  have hshows : Shows flags original (findMember original) := ⟨h, fun _ _ => rfl⟩
  obtain ⟨force_post, hforce⟩ := Option.ne_none_iff_exists'.mp hfirst
  obtain ⟨force_post', hforce'⟩ := Option.ne_none_iff_exists'.mp hsecond
  have hnext := hshows.next (regular_original h) refused hforce
  have hgo := goOnce_eq hshows uri refused
  have hgo' := goOnce_eq hnext uri refused
  rw [hforce] at hgo
  rw [hforce'] at hgo'
  rw [go, retry]
  simp only [goText, hgo]
  have hcheck : checkAnswer flags refused = some (⟨1, "Request error"⟩, false) := rfl
  simp only [hcheck, Option.map_some]
  rw [if_neg (by decide), retry]
  simp only [goText, hgo', hcheck, Option.map_some]
  rw [if_pos (Or.inr trivial)]
  exact ⟨_, _, rfl⟩

end Attempts

/-! ### Retries send the same -/

/-- Every two attempts use the same verb and the same compression, and a body has the members of
the original parameters that do not control the request, and the node key. -/
def SameRequests (flags : Flags) (uri : String) (params : Members) : Prop :=
  ∀ attempts answers,
    (∀ sent ∈ (go flags uri params attempts answers).1,
      ∀ sent' ∈ (go flags uri params attempts answers).1,
        sent.body.isSome = sent'.body.isSome ∧ sent.compress = sent'.compress) ∧
    ∀ k sent body, (go flags uri params attempts answers).1[k]? = some sent →
      sent.body = some body →
        Distinct body ∧ ∀ name, findMember body name =
          bodyMember flags (answers (1 + k)) (findMember params) name

/-- The members that are put back change neither the verb nor the compression, nor, for a POST,
a member that does not control the request; or the verb is no string, and the process ends. -/
def Unaffected (params : Members) : Prop :=
  forcePost (findMember params "_verb") = none ∨ forcePost (putBack params "_verb") = none ∨
    posts (putBack params) = posts (findMember params) ∧
      (putBack params "_compress").isSome = (findMember params "_compress").isSome ∧
        (posts (findMember params) = true → ∀ name, ¬IsControl name →
          putBack params name = findMember params name)

theorem describes_of_go {original : Members} (h : Distinct original) {uri : String} {attempts : ℕ}
    {answers : ℕ → Answer} {k : ℕ} {sent : Sent}
    (hsent : (go flags uri original attempts answers).1[k]? = some sent) :
    Describes flags (answers (1 + k))
      (if k = 0 then findMember original else putBack original) sent :=
  describes_of_retry h (regular_original h) ⟨h, fun _ _ => rfl⟩ hsent

/-- Where the members are the same, so are those of a body. -/
theorem bodyMember_congr {answer : Answer} {G : String → Option Json}
    (h : ∀ name, ¬IsControl name → G name = F name) (name : String) :
    bodyMember flags answer G name = bodyMember flags answer F name := by
  rw [bodyMember, bodyMember]
  by_cases hcontrol : IsControl name
  · rw [if_pos hcontrol, if_pos hcontrol]
  · rw [h name hcontrol]

/-- Every request is described by the original parameters when putting back has no effect. -/
theorem describes_of_unaffected {original : Members} (h : Distinct original)
    (hunaffected : Unaffected original) {uri : String} {attempts : ℕ} {answers : ℕ → Answer}
    {k : ℕ} {sent : Sent} (hsent : (go flags uri original attempts answers).1[k]? = some sent) :
    Describes flags (answers (1 + k)) (findMember original) sent := by
  have hdescribes := describes_of_go h hsent
  by_cases hzero : k = 0
  · rwa [if_pos hzero] at hdescribes
  · rw [if_neg hzero] at hdescribes
    have hlength := (List.getElem?_eq_some_iff.mp hsent).1
    have hpossible := (describes_of_go h (List.getElem?_eq_getElem
      (Nat.lt_of_le_of_lt (Nat.zero_le k) hlength))).possible
    rw [if_pos rfl] at hpossible
    rcases hunaffected with hnone | hnone | ⟨hposts, hcompress, hmembers⟩
    · exact absurd hnone hpossible
    · exact absurd hnone hdescribes.possible
    · refine ⟨hpossible, hdescribes.compress.trans hcompress, hdescribes.post.trans hposts, ?_⟩
      intro body hbody
      have hpost : posts (findMember original) = true := by
        rw [← hposts, ← hdescribes.post, hbody]
        rfl
      obtain ⟨hdistinct, hfind⟩ := hdescribes.body body hbody
      refine ⟨hdistinct, fun name => ?_⟩
      rw [hfind]
      exact bodyMember_congr (hmembers hpost) name

/-- The node key is not among the members that are put back. -/
theorem putBack_node_key (params : Members) :
    putBack params "node_key" = findMember params "node_key" := by
  rw [putBack]
  cases hcut : cutMember params "node_key" with
  | none => rfl
  | some value => exact absurd (cstr_of_cutMember hcut).2 (by decide)

theorem unaffected_of_sameRequests {original : Members} (h : Distinct original) {uri : String}
    (hsame : SameRequests flags uri original) : Unaffected original := by
  by_cases hfirst : forcePost (findMember original "_verb") = none
  · exact Or.inl hfirst
  · by_cases hsecond : forcePost (putBack original "_verb") = none
    · exact Or.inr (Or.inl hsecond)
    · obtain ⟨first, second, hgo⟩ := exists_two_sent h flags uri hfirst hsecond
      obtain ⟨halike, hbodies⟩ := hsame 2 fun _ => refused
      rw [hgo] at halike
      have hone : (go flags uri original 2 fun _ => refused).1[0]? = some first := by
        rw [hgo]
        rfl
      have htwo : (go flags uri original 2 fun _ => refused).1[1]? = some second := by
        rw [hgo]
        rfl
      have hdescribes := describes_of_go h hone
      have hdescribes' := describes_of_go h htwo
      rw [if_pos rfl] at hdescribes
      rw [if_neg Nat.one_ne_zero] at hdescribes'
      obtain ⟨hpost, hcompress⟩ := halike second (by simp) first (by simp)
      rw [hdescribes.post, hdescribes'.post] at hpost
      rw [hdescribes.compress, hdescribes'.compress] at hcompress
      refine Or.inr (Or.inr ⟨hpost, hcompress, fun hposts name hcontrol => ?_⟩)
      obtain ⟨body, hbody⟩ := Option.isSome_iff_exists.mp
        ((hdescribes'.post.trans hpost).trans hposts)
      have hfind := (hbodies 1 second body htwo hbody).2 name
      rw [(hdescribes'.body body hbody).2 name, bodyMember, bodyMember, if_neg hcontrol,
        if_neg hcontrol] at hfind
      by_cases hkey : flags.tls_node_api = false ∧ name = "node_key"
      · rw [hkey.2, putBack_node_key]
      · rwa [if_neg hkey, if_neg hkey] at hfind

/-- Every retry sends the same request exactly when the members that are put back make no
difference. -/
theorem sameRequests_iff_unaffected {params : Members} (h : Distinct params) (flags : Flags)
    (uri : String) : SameRequests flags uri params ↔ Unaffected params := by
  refine ⟨unaffected_of_sameRequests h, fun hunaffected attempts answers => ⟨?_, ?_⟩⟩
  · intro sent hsent sent' hsent'
    obtain ⟨k, hk⟩ := List.mem_iff_getElem?.mp hsent
    obtain ⟨k', hk'⟩ := List.mem_iff_getElem?.mp hsent'
    have hdescribes := describes_of_unaffected h hunaffected hk
    have hdescribes' := describes_of_unaffected h hunaffected hk'
    exact ⟨hdescribes.post.trans hdescribes'.post.symm,
      hdescribes.compress.trans hdescribes'.compress.symm⟩
  · intro k sent body hsent hbody
    exact (describes_of_unaffected h hunaffected hsent).body body hbody

theorem head?_of_cstr {s : String} {c : Char} (h : (cstr s).toList.head? = some c) :
    s.toList.head? = some c := by
  rw [cstr, String.toList_ofList] at h
  cases hs : s.toList with
  | nil =>
      rw [hs] at h
      cases h
  | cons d ds =>
      rw [hs, List.takeWhile_cons] at h
      split at h
      · exact h
      · cases h

/-- Without a NUL in a name that starts with an underscore putting back makes no difference. -/
theorem unaffected_of_no_nul {params : Members} (h : Distinct params)
    (hnul : ∀ m ∈ params, m.1.toList.head? = some '_' → cstr m.1 = m.1) : Unaffected params := by
  have hsame : ∀ name, putBack params name = findMember params name := by
    intro name
    rw [putBack]
    cases hcut : cutMember params name with
    | none => rfl
    | some value =>
        obtain ⟨m, hm, rfl⟩ := Option.map_eq_some_iff.mp hcut
        have hmem := List.mem_of_getLast? hm
        rw [List.mem_filter, decide_eq_true_eq] at hmem
        obtain ⟨hin, hhead, rfl⟩ := hmem
        rw [hnul m hin (head?_of_cstr hhead), (findMember_eq_some_iff h).mpr hin]
        rfl
  refine Or.inr (Or.inr ⟨?_, ?_, fun _ name _ => hsame name⟩)
  · rw [posts, posts, hsame, hsame]
  · rw [hsame]

/-- Flags with the node key in the body. -/
def keyInBody : Flags := ⟨false, "example.com", false⟩

theorem sameRequests_iff_unaffected_compressed :
    SameRequests keyInBody "https://example.com/log"
      [("_compress", .bool true), ("log_type", .str "result")] := by
  have hdistinct : Distinct [("_compress", .bool true), ("log_type", .str "result")] := by
    rw [Distinct]
    decide
  refine (sameRequests_iff_unaffected hdistinct keyInBody _).mpr ?_
  refine unaffected_of_no_nul hdistinct fun m hm _ => ?_
  rw [List.mem_pair] at hm
  rcases hm with rfl | rfl <;> decide

/-- A member with a NUL in its name turns the second attempt into a GET. -/
theorem cut_name_becomes_get :
    ¬SameRequests keyInBody "https://example.com/log" [("_get\x00", .bool true)] := by
  have hdistinct : Distinct [("_get\x00", .bool true)] := List.nodup_singleton _
  intro hsame
  rcases unaffected_of_sameRequests hdistinct hsame with hnone | hnone | ⟨hposts, -⟩
  · exact absurd hnone (by decide)
  · exact absurd hnone (by decide)
  · exact absurd hposts (by decide)

end Osquery.Remote.Retries
