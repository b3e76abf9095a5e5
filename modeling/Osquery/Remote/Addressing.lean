import Osquery.Remote.HttpClient
import Osquery.Foundation.Simulation

/-!
# Where requests go

Calls of `setOptions` and requests on one client, without a proxy, taken pass by pass. What is
written is compared with the address of the text that the request has at that time.

## Implementation notes

The caller sets options and gives requests, in a fresh object without a Host field or in the object
of the last request with another text. A text that throws makes no call. No call is made while a
request is on its way. An identifier has an address if it has a host, and a port of its own or one
of the schemes `http` and `https`.
-/

namespace Osquery.Remote.Addressing

open Foundation.Numeral Foundation.Simulation

/-- The client, the options that were set last, and the request. -/
structure State where
  client : Client
  lastSet : Options
  phase : Phase

def State.start (opts : Options) : State := ⟨{ client_options_ := opts }, opts, .idle none⟩

inductive Action
  | setOptions (opts : Options)
  | request (req : Request) (call : Call)
  | again (url : String) (call : Call)
  | round (round : Round)

/-- The call has no proxy, and no Host field of the caller. -/
def Action.Direct : Action → Prop
  | .setOptions opts => opts.proxy_hostname_ = none
  | .request req _ => req.fields.get .host = ""
  | _ => True

namespace State

/-- The state after an action, and what it writes. -/
def step (s : State) : Action → State × Option Written
  | .setOptions opts =>
      match s.phase with
      | .idle left => (⟨s.client.setOptions opts, opts, .idle left⟩, none)
      | .sending .. => (s, none)
  | .request req call =>
      match s.phase with
      | .idle _ => ({ s with phase := .sending (req.begin_ call) false }, none)
      | .sending .. => (s, none)
  | .again url call =>
      match s.phase with
      | .idle (some left) =>
          match left.uri url with
          | none => (s, none)
          | some req => ({ s with phase := .sending (req.begin_ call) false }, none)
      | _ => (s, none)
  | .round round =>
      match s.phase with
      | .idle _ => (s, none)
      | .sending req retry_connect =>
          let (client, phase, written) := s.client.pass round req retry_connect
          ({ s with client, phase }, written)

end State

/-- A Host field names a host, with a port or without one. -/
def Names (field host : String) : Prop :=
  field = host ∨ (host ++ ":").toList <+: field.toList

instance (field host : String) : Decidable (Names field host) :=
  inferInstanceAs (Decidable (_ ∨ _))

/-- The request is written where its text says, under the given options. -/
structure AddressedTo (a : Address) (opts : Options) (written : Written) : Prop where
  host : written.connection.host = a.host
  port : written.connection.port = toText a.port
  tls : written.tls = a.tls
  options : written.connection.options.equals opts = true
  field : Names (written.request.fields.get .host) a.host

/-- What the step writes goes to the address of its text, under the options that were set last. -/
def State.Addressed (s : State) (action : Action) : Prop :=
  ∀ written ∈ (s.step action).2,
    ∃ a ∈ address written.request.url, AddressedTo a s.lastSet written

/-- The client remembers the target of a request. -/
def Remembers (c : Client) (req : Request) : Prop :=
  req.remoteHost = c.client_options_.remote_hostname_ ∧
    some req.port = c.client_options_.remote_port_ ∧
      req.sslConnection = c.client_options_.ssl_connection_

/-- The address of the request is one that the client can tell: its port is kept, a host that is
connected to has no colon, the Host field is not that of another host, and a retry is for the
target that is remembered. -/
def Proper (c : Client) (round : Round) (req : Request) (retry_connect : Bool) : Prop :=
  ∃ a ∈ address req.url,
    (0 < a.port ∧ a.port < 65535) ∧
      (c.opens round.indeterminate req retry_connect = true → ':' ∉ a.host.toList) ∧
      (req.fields.get .host = "" ∨ Names (req.fields.get .host) a.host) ∧
      (retry_connect = true → Remembers c req)

/-- New options are not taken back before a request has seen them while a socket is open, and a
pass that writes has a proper request. -/
def State.Kept (s : State) : Action → Prop
  | .setOptions opts =>
      match s.phase with
      | .idle _ => ¬(s.client.isSocketOpen = true ∧ s.client.new_client_options_ = true ∧
          s.client.client_options_.equals opts = true)
      | .sending .. => True
  | .round round =>
      match s.phase with
      | .idle _ => True
      | .sending req retry_connect =>
          s.client.Silent round req retry_connect ∨ Proper s.client round req retry_connect
  | _ => True

section Decidability

variable (s : State) (action : Action) (a : Address) (opts : Options) (written : Written)
variable (c : Client) (round : Round) (req : Request) (retry_connect : Bool)

instance : Decidable action.Direct :=
  match action with
  | .setOptions opts => inferInstanceAs (Decidable (opts.proxy_hostname_ = none))
  | .request req _ => inferInstanceAs (Decidable (req.fields.get .host = ""))
  | .again _ _ => inferInstanceAs (Decidable True)
  | .round _ => inferInstanceAs (Decidable True)

instance : Decidable (AddressedTo a opts written) :=
  decidable_of_iff (written.connection.host = a.host ∧ written.connection.port = toText a.port ∧
      written.tls = a.tls ∧ written.connection.options.equals opts = true ∧
      Names (written.request.fields.get .host) a.host)
    ⟨fun ⟨host, port, tls, options, field⟩ => ⟨host, port, tls, options, field⟩,
      fun h => ⟨h.host, h.port, h.tls, h.options, h.field⟩⟩

instance : Decidable (s.Addressed action) :=
  inferInstanceAs (Decidable (∀ written ∈ (s.step action).2,
    ∃ a ∈ address written.request.url, AddressedTo a s.lastSet written))

instance : Decidable (Remembers c req) := inferInstanceAs (Decidable (_ ∧ _ ∧ _))

instance : Decidable (Proper c round req retry_connect) :=
  inferInstanceAs (Decidable (∃ a ∈ address req.url,
    (0 < a.port ∧ a.port < 65535) ∧
      (c.opens round.indeterminate req retry_connect = true → ':' ∉ a.host.toList) ∧
      (req.fields.get .host = "" ∨ Names (req.fields.get .host) a.host) ∧
      (retry_connect = true → Remembers c req)))

instance : Decidable (s.Kept action) :=
  match action with
  | .setOptions opts =>
      match h : s.phase with
      | .idle _ =>
          decidable_of_iff (¬(s.client.isSocketOpen = true ∧ s.client.new_client_options_ = true ∧
            s.client.client_options_.equals opts = true)) (by rw [State.Kept, h])
      | .sending .. => isTrue (by rw [State.Kept, h]; trivial)
  | .request .. => isTrue trivial
  | .again .. => isTrue trivial
  | .round round =>
      match h : s.phase with
      | .idle _ => isTrue (by rw [State.Kept, h]; trivial)
      | .sending req retry_connect =>
          decidable_of_iff (s.client.Silent round req retry_connect ∨
            Proper s.client round req retry_connect) (by rw [State.Kept, h])

end Decidability

/-! ### What a request is taken for -/

theorem splitHost_of_not_mem {host port : String} (h : ':' ∉ host.toList) :
    splitHost host port = (host, port) := by
  have hall : ∀ c ∈ host.toList, decide (c ≠ ':') = true := by
    intro c hc
    rw [decide_eq_true_eq]
    rintro rfl
    exact h hc
  rw [splitHost, List.dropWhile_eq_nil_iff.mpr hall]

/-- The client takes a request for its address, if the port is kept. -/
theorem target_of_address {req : Request} {a : Address} (ha : address req.url = some a)
    (hpos : 0 < a.port) (hlt : a.port < 65535) :
    req.remoteHost = some a.host ∧ req.port = toText a.port ∧ req.sslConnection = a.tls := by
  obtain ⟨hhost, hne, htls, hport⟩ := Uri.ofString_of_address req.parsed ha
  have hprotocol : req.protocol = some "https" ↔ req.uri_.scheme_ = "https" := by
    rw [Request.protocol]
    split
    · exact Option.some_inj
    · rename_i hempty
      rw [not_not.mp hempty]
      decide
  refine ⟨?_, ?_, ?_⟩
  · rw [Request.remoteHost, hhost, if_pos hne]
  · obtain hkept | ⟨hnone, hdefault⟩ := hport hlt
    · rw [Request.port, Request.remotePort, hkept, if_pos hpos]
    · rw [Request.port, Request.remotePort, hnone, if_neg (lt_irrefl 0), hdefault]
      dsimp only
      by_cases hhttps : req.uri_.scheme_ = "https"
      · rw [if_pos (hprotocol.mpr hhttps), if_pos hhttps]
        rfl
      · rw [if_neg (fun h => hhttps (hprotocol.mp h)), if_neg hhttps]
        rfl
  · rw [Request.sslConnection, htls]
    exact decide_eq_decide.mpr hprotocol

/-- The Host field that the client sets names the host that it remembers. -/
theorem names_hostHeaderValue {c : Client} (indeterminate : Indeterminate) {host : String}
    (h : c.client_options_.remote_hostname_ = some host) :
    Names (c.hostHeaderValue indeterminate) host := by
  have hport : ∀ port : String, Names (host ++ ":" ++ port) host := by
    intro port
    simp only [Names, String.toList_append]
    exact Or.inr (List.prefix_append _ _)
  rw [Client.hostHeaderValue, h]
  dsimp only [Option.getD_some]
  split
  · exact hport _
  · split
    · exact hport _
    · exact Or.inl rfl

/-- A request is written with a Host field that names the host. -/
theorem names_prepare {c : Client} {indeterminate : Indeterminate} {req : Request} {host : String}
    (h : c.client_options_.remote_hostname_ = some host)
    (hfield : req.fields.get .host = "" ∨ Names (req.fields.get .host) host) :
    Names ((c.prepare indeterminate req).fields.get .host) host := by
  rw [Client.prepare]
  dsimp only
  split
  · dsimp only
    rw [Fields.get_set]
    exact names_hostHeaderValue indeterminate h
  · rename_i hset
    exact hfield.resolve_left hset

theorem url_prepare (c : Client) (indeterminate : Indeterminate) (req : Request) :
    (c.prepare indeterminate req).url = req.url := by
  rw [Client.prepare]
  dsimp only
  split
  · rfl
  · rfl

/-! ### A client that its socket agrees with -/

/-- The client remembers an address. -/
structure Aims (c : Client) (a : Address) : Prop where
  host : c.client_options_.remote_hostname_ = some a.host
  port : c.client_options_.remote_port_ = some (toText a.port)
  tls : c.client_options_.ssl_connection_ = a.tls

/-- The client has the given options. Its socket was opened for these and for the target that is
remembered, unless other options were set since. -/
structure Faithful (c : Client) (opts : Options) : Prop where
  direct : opts.proxy_hostname_ = none
  options : c.client_options_.compared = opts.compared
  connection : ∀ connection, c.sock_ = some connection → c.new_client_options_ = false →
    connection.options.compared = opts.compared ∧
      c.client_options_.remote_hostname_ = some connection.host ∧
      c.client_options_.remote_port_ = some connection.port ∧
      c.client_options_.ssl_connection_ = connection.tls

theorem proxy_of_compared {opts ropts : Options} (h : opts.compared = ropts.compared) :
    opts.proxy_hostname_ = ropts.proxy_hostname_ := by
  have hproxy : opts.compared.proxy_hostname_ = ropts.compared.proxy_hostname_ := by rw [h]
  exact hproxy

variable {c c₁ c₂ : Client} {opts : Options}

theorem Faithful.of_closed (h : Faithful c opts) (hclosed : c₁.sock_ = none)
    (hoptions : c₁.client_options_.compared = c.client_options_.compared) :
    Faithful c₁ opts := by
  refine ⟨h.direct, hoptions.trans h.options, ?_⟩
  intro connection hopen
  rw [hclosed] at hopen
  cases hopen

theorem Faithful.setOptions (h : Faithful c opts) {opts' : Options}
    (hdirect : opts'.proxy_hostname_ = none)
    (hkept : ¬(c.isSocketOpen = true ∧ c.new_client_options_ = true ∧
      c.client_options_.equals opts' = true)) : Faithful (c.setOptions opts') opts' := by
  rw [Client.setOptions]
  split
  · refine ⟨hdirect, rfl, ?_⟩
    intro connection _ hnew
    cases hnew
  · rename_i hequal
    have hequals : c.client_options_.equals opts' = true := by simpa using hequal
    have hsame := Options.equals_iff.mp hequals
    refine ⟨hdirect, hsame, ?_⟩
    intro connection hopen _
    have hold : c.new_client_options_ = false := by
      rw [Bool.eq_false_iff]
      intro hnew
      exact hkept ⟨Option.isSome_iff_exists.mpr ⟨connection, hopen⟩, hnew, hequals⟩
    obtain ⟨hoptions, htarget⟩ := h.connection connection hopen hold
    exact ⟨hoptions.trans (h.options.symm.trans hsame), htarget⟩

section Enter

variable {indeterminate : Indeterminate} {req : Request} {retry_connect create_connection : Bool}

theorem compared_enter
    (henter : c.enter indeterminate req retry_connect = some (c₁, create_connection)) :
    c₁.client_options_.compared = c.client_options_.compared := by
  obtain ⟨-, rfl, -⟩ | ⟨-, hostname, -, -, rfl, -⟩ | ⟨-, hostname, -, -, -, rfl⟩ |
    ⟨-, -, -, port, rfl⟩ := Client.enter_cases henter
  · rfl
  · rfl
  · rfl
  · rfl

/-- A pass of a proper request starts from a client that remembers its address. -/
theorem Faithful.aims_enter (h : Faithful c opts) {a : Address} (ha : address req.url = some a)
    (hpos : 0 < a.port) (hlt : a.port < 65535)
    (hretry : retry_connect = true → Remembers c req)
    (henter : c.enter indeterminate req retry_connect = some (c₁, create_connection)) :
    Aims c₁ a := by
  obtain ⟨hhost, hport, htls⟩ := target_of_address ha hpos hlt
  obtain ⟨hagain, rfl, -⟩ | ⟨-, hostname, hhost', hreuses, rfl, -⟩ |
    ⟨-, hostname, hhost', -, -, rfl⟩ | ⟨-, hnone, -⟩ := Client.enter_cases henter
  · obtain ⟨hremembers, hremembers', hremembers''⟩ := hretry hagain
    exact ⟨hremembers.symm.trans hhost, hremembers'.symm.trans (congrArg some hport),
      hremembers''.symm.trans htls⟩
  · obtain ⟨hopen, hnew, hsame, hsame', hssl⟩ := Client.reuses_iff.mp hreuses
    obtain ⟨connection, hsock⟩ := Option.isSome_iff_exists.mp hopen
    obtain ⟨-, hremote, hremote', -⟩ := h.connection connection hsock hnew
    rw [hremote, Option.getD_some] at hsame
    rw [hremote', Option.getD_some] at hsame'
    refine ⟨?_, ?_, hssl.trans htls⟩
    · rw [hremote, ← hsame, ← hhost', hhost]
    · rw [hremote', ← hsame', hport]
  · exact ⟨hhost'.symm.trans hhost, congrArg some hport, htls⟩
  · rw [hnone] at hhost
    cases hhost

end Enter

/-- A connection is made to the address that is remembered, if its host has no colon. -/
theorem Aims.connection {a : Address} (h : Aims c a)
    (hdirect : c.client_options_.proxy_hostname_ = none) (hcolon : ':' ∉ a.host.toList)
    (indeterminate : Indeterminate) :
    (c.connection indeterminate).host = a.host ∧ (c.connection indeterminate).port = toText a.port ∧
      (c.connection indeterminate).options = c.client_options_ := by
  rw [Client.connection, hdirect, h.host, h.port]
  dsimp only [Option.getD_some]
  rw [splitHost_of_not_mem hcolon]
  exact ⟨rfl, rfl, rfl⟩

/-- The socket that a pass comes to is one for the address, in a client that agrees with it. -/
theorem Faithful.connect (h : Faithful c opts) {a : Address} (haims : Aims c a) {round : Round}
    {create_connection : Bool} (hcolon : create_connection = true → ':' ∉ a.host.toList)
    (hnew : create_connection = false → c.new_client_options_ = false)
    (hconnect : c.connect round create_connection = some c₂) {connection : Connection}
    (hopen : c₂.sock_ = some connection) :
    Faithful c₂ opts ∧ Aims c₂ a ∧ connection.host = a.host ∧ connection.port = toText a.port ∧
      connection.tls = a.tls ∧ connection.options.compared = opts.compared := by
  obtain ⟨hkept, rfl⟩ | ⟨hcreate, -, -, rfl⟩ := Client.connect_eq_some_iff.mp hconnect
  · obtain ⟨hoptions, hhost, hport, htls⟩ := h.connection connection hopen (hnew hkept)
    refine ⟨h, haims, ?_, ?_, ?_, hoptions⟩
    · exact Option.some.inj (hhost.symm.trans haims.host)
    · exact Option.some.inj (hport.symm.trans haims.port)
    · exact htls.symm.trans haims.tls
  · obtain rfl := Option.some.inj hopen
    have hdirect : c.client_options_.proxy_hostname_ = none :=
      (proxy_of_compared h.options).trans h.direct
    obtain ⟨hhost, hport, hoptions⟩ :=
      haims.connection hdirect (hcolon hcreate) round.indeterminate
    have hcompared : (c.connection round.indeterminate).options.compared = opts.compared := by
      rw [hoptions]
      exact h.options
    refine ⟨⟨h.direct, h.options, ?_⟩, ⟨haims.host, haims.port, haims.tls⟩, hhost, hport,
      haims.tls, hcompared⟩
    intro other hother _
    obtain rfl := Option.some.inj hother
    refine ⟨hcompared, ?_, ?_, rfl⟩
    · exact haims.host.trans (congrArg some hhost.symm)
    · exact haims.port.trans (congrArg some hport.symm)

section Pass

variable {round : Round} {req : Request} {retry_connect : Bool}

theorem Faithful.enter (h : Faithful c opts) {indeterminate : Indeterminate}
    {create_connection : Bool}
    (henter : c.enter indeterminate req retry_connect = some (c₁, create_connection)) :
    Faithful c₁ opts ∧ (create_connection = false → c₁.new_client_options_ = false) := by
  have hcompared := compared_enter henter
  obtain ⟨-, rfl, rfl⟩ | ⟨-, hostname, -, hreuses, rfl, -⟩ | ⟨-, hostname, -, -, -, rfl⟩ |
    ⟨-, -, rfl, port, rfl⟩ := Client.enter_cases henter
  · exact ⟨h, nofun⟩
  · exact ⟨h, fun _ => (Client.reuses_iff.mp hreuses).2.1⟩
  · exact ⟨h.of_closed rfl hcompared, fun _ => rfl⟩
  · exact ⟨h.of_closed rfl hcompared, nofun⟩

theorem Faithful.pass_of_silent (h : Faithful c opts)
    (hsilent : c.Silent round req retry_connect) :
    Faithful (c.pass round req retry_connect).1 opts := by
  obtain ⟨-, hsame | ⟨c₁, create_connection, henter, hclosed⟩⟩ := Client.pass_of_silent hsilent
  · rw [hsame]
    exact h
  · have hcompared := compared_enter henter
    rw [hclosed]
    exact h.of_closed rfl hcompared

/-- A pass that writes a proper request writes it to its address. -/
theorem Faithful.pass_of_proper (h : Faithful c opts)
    (hsilent : ¬c.Silent round req retry_connect) (hproper : Proper c round req retry_connect) :
    ∃ a written, (c.pass round req retry_connect).2.2 = some written ∧
      address written.request.url = some a ∧ AddressedTo a opts written ∧
      Faithful (c.pass round req retry_connect).1 opts := by
  obtain ⟨a, ha, ⟨hpos, hlt⟩, hcolon, hfield, hretry⟩ := hproper
  obtain ⟨c₁, c₂, connection, henter, hconnect, hopen, hwritten, hclient⟩ :=
    Client.pass_of_not_silent hsilent
  obtain ⟨hfaithful, hnew⟩ := h.enter henter
  have haims := h.aims_enter ha hpos hlt hretry henter
  obtain ⟨hfaithful', haims', hhost, hport, htls, hoptions⟩ :=
    hfaithful.connect haims hcolon hnew hconnect hopen
  refine ⟨a, _, hwritten, (congrArg address (url_prepare ..)).trans ha, ?_, ?_⟩
  · refine ⟨hhost, hport, ?_, Options.equals_iff.mpr hoptions, names_prepare haims'.host hfield⟩
    dsimp only
    rw [← Client.ssl_connection_enter henter, haims.tls, htls, Bool.and_self]
  · obtain hsame | hclosed := hclient
    · rw [hsame]
      exact hfaithful'
    · rw [hclosed]
      exact hfaithful'.of_closed rfl rfl

end Pass

/-! ### Runs -/

theorem forall_none {P : Written → Prop} :
    ∀ written ∈ (none : Option Written), P written := by
  intro written h
  cases h

/-- What the condition keeps, and what it gives, in one action. -/
theorem State.step_addressed {s : State} (h : Faithful s.client s.lastSet) {action : Action}
    (hdirect : action.Direct) (hkept : s.Kept action) :
    s.Addressed action ∧ Faithful (s.step action).1.client (s.step action).1.lastSet := by
  rw [State.Addressed]
  cases action with
  | setOptions opts =>
      rw [State.Kept] at hkept
      rw [State.step]
      cases hphase : s.phase with
      | idle left =>
          rw [hphase] at hkept
          exact ⟨forall_none, h.setOptions hdirect hkept⟩
      | sending req retry_connect => exact ⟨forall_none, h⟩
  | request req call =>
      rw [State.step]
      cases s.phase with
      | idle left => exact ⟨forall_none, h⟩
      | sending req retry_connect => exact ⟨forall_none, h⟩
  | again url call =>
      rw [State.step]
      split
      · split
        · exact ⟨forall_none, h⟩
        · exact ⟨forall_none, h⟩
      · exact ⟨forall_none, h⟩
  | round round =>
      rw [State.Kept] at hkept
      rw [State.step]
      cases hphase : s.phase with
      | idle left => exact ⟨forall_none, h⟩
      | sending req retry_connect =>
          rw [hphase] at hkept
          dsimp only at hkept ⊢
          by_cases hsilent : s.client.Silent round req retry_connect
          · refine ⟨?_, h.pass_of_silent hsilent⟩
            intro written hwritten
            rw [(Client.pass_of_silent hsilent).1] at hwritten
            cases hwritten
          · obtain ⟨a, written, hwritten, haddress, haddressed, hfaithful⟩ :=
              h.pass_of_proper hsilent (hkept.resolve_left hsilent)
            refine ⟨?_, hfaithful⟩
            intro written' hwritten'
            obtain rfl := Option.some.inj (hwritten.symm.trans hwritten')
            exact ⟨a, haddress, haddressed⟩

theorem faithful_start {opts : Options} (h : opts.proxy_hostname_ = none) :
    Faithful (State.start opts).client (State.start opts).lastSet := by
  refine ⟨h, rfl, ?_⟩
  intro connection hopen
  cases hopen

/-- Every request that is written in a run goes to the address of its text at that time, under the
options that were set last, if new options are not taken back while a socket is open and every pass
that writes has a proper request. -/
theorem requests_addressed {opts : Options} (hopts : opts.proxy_hostname_ = none)
    {actions : List Action} (hdirect : ∀ action ∈ actions, action.Direct)
    (hkept : Throughout (fun s action => (s.step action).1) State.Kept (State.start opts) actions) :
    Throughout (fun s action => (s.step action).1) State.Addressed (State.start opts) actions := by
  refine Throughout.imp (I := fun s : State => Faithful s.client s.lastSet) ?_
    (faithful_start hopts) ((throughout_const.mpr hdirect).and hkept)
  rintro s action h ⟨hdirect, hkept⟩
  exact State.step_addressed h hdirect hkept

/-- A request for a text that the constructor accepts. -/
def get (url : String) (h : (Request.ofUrl url).isSome = true) : Action :=
  .request ((Request.ofUrl url).get h) .get

def redirect (location : String) : Action := .round { response := some ⟨302, location, false⟩ }

def answered : Action := .round { response := some ⟨200, "", false⟩ }

def refused : Action := .round { connects := false }

/-- Options with the ciphers and the target of the caller. -/
def pinned : Options where
  ciphers_ := some "c"
  remote_hostname_ := some "a"
  remote_port_ := some "443"
  ssl_connection_ := true

/-- A redirect, a retry and a second request on one client. -/
theorem requests_addressed_redirected :
    Throughout (fun s action => (s.step action).1) State.Addressed (State.start {})
      [.setOptions { follow_redirects_ := true, keep_alive_ := true },
        get "https://a:8443/" (by decide +kernel), redirect "https://a/b", refused, answered,
        get "http://b/" (by decide +kernel), answered] :=
  requests_addressed (by decide) (by decide +kernel) (by decide +kernel)

/-- The largest port, a redirect to another host, one after a retry, and new options that are
taken back. -/
theorem requests_not_addressed :
    ¬Throughout (fun s action => (s.step action).1) State.Addressed (State.start {})
        [get "http://a:65535/" (by decide +kernel), answered] ∧
      ¬Throughout (fun s action => (s.step action).1) State.Addressed
        (State.start { follow_redirects_ := true })
        [get "http://a/" (by decide +kernel), redirect "http://b/", answered] ∧
      ¬Throughout (fun s action => (s.step action).1) State.Addressed
        (State.start { follow_redirects_ := true })
        [get "https://a/" (by decide +kernel), refused, redirect "http://a:8080/", answered] ∧
      ¬Throughout (fun s action => (s.step action).1) State.Addressed (State.start {})
        [get "https://a/" (by decide +kernel), answered,
          .setOptions pinned, .setOptions pinned, get "https://a/" (by decide +kernel),
          answered] := by
  decide +kernel

end Osquery.Remote.Addressing
