import Osquery.Remote.HttpClient
import Osquery.Foundation.Simulation
import Mathlib.Data.List.Infix

/-!
# The TLS transport

A transport sends one request to its destination through the client of the thread, which is kept
for the next request unless sessions are not reused or it has become too old.

## Implementation notes

The flags, the clock, the host and the constants of the TLS library are read from an environment
that comes with every call. The options that the caller sets are those that the transport looks
at: a hostname that is a string, and a verb that is an integer. What becomes of the response is
left out.
-/

namespace Osquery.Remote

open Foundation.Simulation

def kTLSUserAgentBase : String := "osquery/"

def kTLSCiphers : String :=
  "ECDH+AESGCM:DH+AESGCM:ECDH+AES256:DH+AES256:ECDH+AES128:DH+AES:ECDH+3DES:" ++
    "DH+3DES:RSA+AESGCM:RSA+AES:RSA+3DES:!aNULL:!MD5:!CBC:!SHA"

abbrev HTTP_POST : ℤ := 0

/-- The flags and what a transport asks of its surroundings. -/
structure Environment where
  proxy_hostname : String := ""
  tls_session_reuse : Bool := true
  tls_session_timeout : UInt32 := 3600
  tls_allow_unsafe : Bool := false
  isReadable : String → Bool := fun _ => false
  isRegular : String → Bool := fun _ => false
  isWindows : Bool := false
  sslOptions : ℤ := 0
  kVersion : String := ""
  compressString : String → String := id
  now : ℤ := 0

/-- A transport with the content type of its serializer and the options of its caller. -/
structure TLSTransport where
  destination_ : String
  contentType : String := "application/json"
  hostname : Option String := none
  verb : Option ℤ := none
  server_certificate_file_ : String := ""
  client_certificate_file_ : String := ""
  client_private_key_file_ : String := ""
  verify_peer_ : Bool := true

namespace TLSTransport

/-- The search for `https://` in the destination. -/
def findsHttps (t : TLSTransport) : Bool := "https://".toList <:+: t.destination_.toList

def decorateRequest (t : TLSTransport) (env : Environment) (r : Request) : Request :=
  let fields := r.fields.set .contentType t.contentType
  let fields := fields.set .accept t.contentType
  { r with fields := fields.set .userAgent (kTLSUserAgentBase ++ env.kVersion) }

/-- The server certificates, if they can be read. -/
def withServerCertificate (t : TLSTransport) (env : Environment) (options : Options) : Options :=
  if t.server_certificate_file_ ≠ "" ∧ env.isReadable t.server_certificate_file_ then
    let options := { options with verify_path_ := some t.server_certificate_file_ }
    if env.isWindows ∧ ¬env.isRegular t.server_certificate_file_ then options
    else { options with server_certificate_ := some t.server_certificate_file_ }
  else options

/-- The client certificate and its key, if both can be read. -/
def withClientCertificate (t : TLSTransport) (env : Environment) (options : Options) : Options :=
  if t.client_certificate_file_ ≠ "" ∧ env.isReadable t.client_certificate_file_ ∧
      env.isReadable t.client_private_key_file_ then
    { options with
      client_certificate_file_ := some t.client_certificate_file_
      client_private_key_file_ := some t.client_private_key_file_ }
  else options

def getOptions (t : TLSTransport) (env : Environment) : Options :=
  let options : Options :=
    { follow_redirects_ := true
      always_verify_peer_ := t.verify_peer_
      timeout_ := 16
      keep_alive_ := env.tls_session_reuse
      proxy_hostname_ := if env.proxy_hostname ≠ "" then some env.proxy_hostname else none
      ciphers_ := some kTLSCiphers
      ssl_options_ := env.sslOptions }
  let options := t.withClientCertificate env (t.withServerCertificate env options)
  let options :=
    match t.hostname with
    | none => options
    | some hostname => { options with sni_hostname_ := some hostname }
  if env.tls_allow_unsafe then { options with always_verify_peer_ := false } else options

/-- The decorated request, unless the destination throws. -/
def request (t : TLSTransport) (env : Environment) (compress : Bool) : Option Request :=
  match Request.ofUrl t.destination_ with
  | none => none
  | some r =>
      let r := t.decorateRequest env r
      some (if compress then { r with fields := r.fields.set .contentEncoding "gzip" } else r)

/-- The method that the client is called with; there are parameters and a flag to compress them,
or none. -/
def call (t : TLSTransport) (env : Environment) : Option (String × Bool) → Call
  | none => .get
  | some (params, compress) =>
      let body := if compress then env.compressString params else params
      if t.verb.getD HTTP_POST = HTTP_POST then .post body "" else .put body ""

end TLSTransport

/-- What a thread keeps. -/
structure Thread where
  tl_client : Option Client := none
  last_time_reseted : Option ℤ := none

/-- A client, and whether the thread keeps it. -/
def getClient (env : Environment) (thread : Thread) : (Client × Bool) × Thread :=
  if env.tls_session_reuse then
    let last_time_reseted := thread.last_time_reseted.getD env.now
    let client := thread.tl_client.getD {}
    if env.tls_session_timeout > 0 ∧
        env.now - last_time_reseted > env.tls_session_timeout.toNat then
      ((client, false), ⟨none, some env.now⟩)
    else ((client, true), ⟨some client, some last_time_reseted⟩)
  else (({}, false), thread)

/-- A request on its way, in the client that it was given. -/
structure Sending where
  client : Client
  kept : Bool
  req : Request
  retry_connect : Bool

structure Session where
  thread : Thread := {}
  sending : Option Sending := none

/-- A request is sent by a transport, in passes. -/
inductive TransportAction
  | sendRequest (t : TLSTransport) (env : Environment) (params : Option (String × Bool))
  | round (round : Round)

namespace Session

/-- The start of `sendRequest`, up to the loop of the client. -/
def sendRequest (s : Session) (t : TLSTransport) (env : Environment)
    (params : Option (String × Bool)) : Session :=
  if t.findsHttps then
    match t.request env (params.any Prod.snd) with
    | none => s
    | some r =>
        let ((client, kept), thread) := getClient env s.thread
        ⟨thread, some ⟨client.setOptions (t.getOptions env), kept, r.begin_ (t.call env params),
          false⟩⟩
  else s

/-- The session after a pass of its request. -/
def advance (s : Session) (sending : Sending) (client : Client) : Phase → Session
  | .idle _ =>
      ⟨if sending.kept then { s.thread with tl_client := some client } else s.thread, none⟩
  | .sending req retry_connect =>
      ⟨s.thread, some { sending with client, req, retry_connect }⟩

/-- A transport waits for the request that is on its way, which may write in a pass. -/
def step (s : Session) : TransportAction → Session × Option Written
  | .sendRequest t env params =>
      match s.sending with
      | none => (s.sendRequest t env params, none)
      | some _ => (s, none)
  | .round round =>
      match s.sending with
      | none => (s, none)
      | some sending =>
          let (client, phase, written) :=
            sending.client.pass round sending.req sending.retry_connect
          (s.advance sending client phase, written)

/-- What the step writes is written in TLS. -/
def Encrypts (s : Session) (action : TransportAction) : Prop :=
  (s.step action).2.all (fun written => written.tls) = true

/-- A pass that writes looks at a host with the scheme `https`, or follows one that did: it is a
retry, or the identifier has no host. -/
def Secured (s : Session) : TransportAction → Prop
  | .sendRequest .. => True
  | .round round =>
      match s.sending with
      | none => True
      | some sending =>
          sending.client.Silent round sending.req sending.retry_connect ∨
            sending.client.secures sending.req sending.retry_connect = true

instance (s : Session) (action : TransportAction) : Decidable (s.Encrypts action) :=
  inferInstanceAs (Decidable (_ = true))

end Session

/-! ### A socket that is in TLS when the client takes it to be -/

/-- The socket is wrapped when the client is to write in TLS. -/
def Client.Wrapped (c : Client) : Prop :=
  ∀ connection, c.sock_ = some connection → c.client_options_.ssl_connection_ = true →
    connection.tls = true

namespace Client

variable {c : Client}

theorem wrapped_of_closed (h : c.sock_ = none) : c.Wrapped := by
  intro connection hopen
  rw [h] at hopen
  cases hopen

theorem Wrapped.setOptions (h : c.Wrapped) {opts : Options}
    (hplain : opts.ssl_connection_ = false) : (c.setOptions opts).Wrapped := by
  rw [Client.setOptions]
  split
  · intro connection _ hssl
    rw [hplain] at hssl
    cases hssl
  · exact h

theorem Wrapped.enter (h : c.Wrapped) {indeterminate : Indeterminate} {req : Request}
    {retry_connect create_connection : Bool} {c' : Client}
    (henter : c.enter indeterminate req retry_connect = some (c', create_connection)) :
    c'.Wrapped := by
  obtain ⟨-, rfl, -⟩ | ⟨-, hostname, -, -, rfl, -⟩ | ⟨-, hostname, -, -, -, rfl⟩ |
    ⟨-, -, -, port, rfl⟩ := enter_cases henter
  · exact h
  · exact h
  · exact wrapped_of_closed rfl
  · exact wrapped_of_closed rfl

theorem Wrapped.connect (h : c.Wrapped) {round : Round} {create_connection : Bool} {c' : Client}
    (hconnect : c.connect round create_connection = some c') : c'.Wrapped := by
  obtain ⟨-, rfl⟩ | ⟨-, -, -, rfl⟩ := connect_eq_some_iff.mp hconnect
  · exact h
  · intro connection hopen hssl
    obtain rfl := Option.some.inj hopen
    exact hssl

theorem Wrapped.pass (h : c.Wrapped) (round : Round) (req : Request) (retry_connect : Bool) :
    (c.pass round req retry_connect).1.Wrapped := by
  by_cases hsilent : c.Silent round req retry_connect
  · obtain ⟨-, hsame | ⟨c₁, create_connection, henter, hclosed⟩⟩ := pass_of_silent hsilent
    · rw [hsame]
      exact h
    · rw [hclosed]
      exact wrapped_of_closed rfl
  · obtain ⟨c₁, c₂, connection, henter, hconnect, -, -, hsame | hclosed⟩ :=
      pass_of_not_silent hsilent
    · rw [hsame]
      exact (h.enter henter).connect hconnect
    · rw [hclosed]
      exact wrapped_of_closed rfl

/-- A pass writes in TLS exactly when it secures the connection. -/
theorem Wrapped.pass_encrypts_iff (h : c.Wrapped) (round : Round) (req : Request)
    (retry_connect : Bool) :
    (c.pass round req retry_connect).2.2.all (fun written => written.tls) = true ↔
      c.Silent round req retry_connect ∨ c.secures req retry_connect = true := by
  by_cases hsilent : c.Silent round req retry_connect
  · rw [(pass_of_silent hsilent).1]
    exact iff_of_true rfl (Or.inl hsilent)
  · obtain ⟨c₁, c₂, connection, henter, hconnect, hopen, hwritten, -⟩ :=
      pass_of_not_silent hsilent
    have hwrapped := (h.enter henter).connect hconnect connection hopen
    have hsecures := ssl_connection_enter henter
    rw [ssl_connection_connect hconnect, hsecures] at hwrapped
    rw [hwritten, Option.all_some, Bool.and_eq_true, or_iff_right hsilent]
    exact and_iff_left_of_imp hwrapped

end Client

/-! ### Sessions -/

namespace TLSTransport

/-- The transport leaves it to the client to secure a connection. -/
theorem ssl_connection_getOptions (t : TLSTransport) (env : Environment) :
    (t.getOptions env).ssl_connection_ = false := by
  have hserver : ∀ options : Options,
      (t.withServerCertificate env options).ssl_connection_ = options.ssl_connection_ := by
    intro options
    rw [withServerCertificate]
    split
    · dsimp only
      split
      · rfl
      · rfl
    · rfl
  have hclient : ∀ options : Options,
      (t.withClientCertificate env options).ssl_connection_ = options.ssl_connection_ := by
    intro options
    rw [withClientCertificate]
    split
    · rfl
    · rfl
  rw [getOptions]
  cases t.hostname with
  | none =>
      dsimp only
      split
      · exact (hclient _).trans (hserver _)
      · exact (hclient _).trans (hserver _)
  | some hostname =>
      dsimp only
      split
      · exact (hclient _).trans (hserver _)
      · exact (hclient _).trans (hserver _)

end TLSTransport

namespace Session

variable {s : Session}

/-- The client that the thread keeps and the one in use are wrapped. -/
structure Wrapped (s : Session) : Prop where
  kept : ∀ c, s.thread.tl_client = some c → c.Wrapped
  used : ∀ sending, s.sending = some sending → sending.client.Wrapped

theorem wrapped_initial : Wrapped {} := by
  constructor
  · intro c hc
    cases hc
  · intro sending hsending
    cases hsending

theorem wrapped_getClient (h : s.Wrapped) (env : Environment) :
    (getClient env s.thread).1.1.Wrapped ∧
      ∀ c, (getClient env s.thread).2.tl_client = some c → c.Wrapped := by
  have hclient : (s.thread.tl_client.getD {}).Wrapped := by
    cases hkept : s.thread.tl_client with
    | none => exact Client.wrapped_of_closed rfl
    | some c => exact h.kept c hkept
  rw [getClient]
  split
  · dsimp only
    split
    · refine ⟨hclient, fun c hc => ?_⟩
      cases hc
    · refine ⟨hclient, fun c hc => ?_⟩
      rw [← Option.some.inj hc]
      exact hclient
  · exact ⟨Client.wrapped_of_closed rfl, h.kept⟩

theorem Wrapped.sendRequest (h : s.Wrapped) (t : TLSTransport) (env : Environment)
    (params : Option (String × Bool)) : (s.sendRequest t env params).Wrapped := by
  obtain ⟨hclient, hthread⟩ := wrapped_getClient h env
  rw [Session.sendRequest]
  split
  · split
    · exact h
    · refine ⟨hthread, fun sending hsending => ?_⟩
      rw [← Option.some.inj hsending]
      exact hclient.setOptions (t.ssl_connection_getOptions env)
  · exact h

theorem Wrapped.advance (h : s.Wrapped) (sending : Sending) {client : Client}
    (hclient : client.Wrapped) (phase : Phase) : (s.advance sending client phase).Wrapped := by
  cases phase with
  | idle left =>
      constructor
      · intro c hc
        rw [Session.advance] at hc
        dsimp only at hc
        split at hc
        · rw [← Option.some.inj hc]
          exact hclient
        · exact h.kept c hc
      · intro sending' hsending
        cases hsending
  | sending req retry_connect =>
      refine ⟨h.kept, fun sending' hsending => ?_⟩
      rw [← Option.some.inj hsending]
      exact hclient

theorem Wrapped.step (h : s.Wrapped) (action : TransportAction) : (s.step action).1.Wrapped := by
  cases action with
  | sendRequest t env params =>
      rw [Session.step]
      split
      · exact h.sendRequest t env params
      · exact h
  | round round =>
      rw [Session.step]
      split
      · exact h
      · rename_i sending hsending
        exact h.advance sending ((h.used sending hsending).pass round _ _) _

theorem Wrapped.encrypts_iff (h : s.Wrapped) (action : TransportAction) :
    s.Encrypts action ↔ s.Secured action := by
  cases action with
  | sendRequest t env params =>
      rw [Encrypts, Session.step]
      split
      · exact iff_of_true rfl trivial
      · exact iff_of_true rfl trivial
  | round round =>
      rw [Encrypts, Secured, Session.step]
      cases hsending : s.sending with
      | none => exact iff_of_true rfl trivial
      | some sending => exact (h.used sending hsending).pass_encrypts_iff round _ _

/-- Everything that transports write in a session is written in TLS, if and only if every pass
that writes looks at a host with the scheme `https` or follows one that did. -/
theorem sendRequest_encrypts_iff (actions : List TransportAction) :
    Throughout (fun s action => (s.step action).1) Encrypts {} actions ↔
      Throughout (fun s action => (s.step action).1) Secured {} actions := by
  apply throughout_iff (R := fun s t : Session => s = t ∧ s.Wrapped) _ _
    (fun action (_ : action ∈ actions) => trivial)
  · exact ⟨rfl, wrapped_initial⟩
  · rintro s t action ⟨rfl, h⟩ -
    exact h.encrypts_iff action
  · rintro s t action ⟨rfl, h⟩ - -
    exact ⟨rfl, h.step action⟩

/-- A destination in the clear that has the text `https://` in its query, and a server that
redirects to the scheme `http`. -/
theorem sendRequest_in_clear :
    ¬Throughout (fun s action => (s.step action).1) Encrypts {}
        [.sendRequest { destination_ := "http://a/?b=https://" } {} (some ("{}", false)),
          .round {}] ∧
      ¬Throughout (fun s action => (s.step action).1) Encrypts {}
        [.sendRequest { destination_ := "https://a/" } {} (some ("{}", false)),
          .round { response := some ⟨302, "http://b/", false⟩ }, .round {}] := by
  constructor
  · rintro ⟨-, h, -⟩
    revert h
    decide +kernel
  · rintro ⟨-, -, h, -⟩
    revert h
    decide +kernel

end Session

end Osquery.Remote
