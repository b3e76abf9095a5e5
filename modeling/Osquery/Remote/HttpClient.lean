import Osquery.Remote.Uri

/-!
# The HTTP client

The client keeps one socket, its options with the target that it remembers in them, and whether
new options were set. A request is sent in passes of one loop, which looks at the target, connects
if it has to, writes the request and reads the response, and goes on for a redirect and once after
a failure.

## Implementation notes

What the servers and the network do in a pass is an input of it. Reading the remembered host or
port when it is not set gives some text, which is an input of the pass too. A request counts as
written when the client starts to write it, also if the write fails later. A socket that is closed
by a timeout that is seen only after the response has come is counted with those that the server
closes. The lines after the loop are never reached, and so `keep_alive_` is only a socket option.
-/

namespace Osquery.Remote

open Foundation.Numeral

def kHTTPSDefaultPort : String := "443"

def kHTTPDefaultPort : String := "80"

def kProxyDefaultPort : String := "3128"

/-! ### Requests -/

inductive Verb
  | get | head | delete_ | put | post
  deriving DecidableEq

inductive Field
  | host | contentType | contentEncoding | accept | userAgent
  deriving DecidableEq

/-- The header fields of a request. -/
abbrev Fields := List (Field × String)

namespace Fields

/-- The value of a field, which is empty when the field is not there. -/
def get (fields : Fields) (name : Field) : String :=
  match fields.find? (·.1 = name) with
  | none => ""
  | some field => field.2

def set (fields : Fields) (name : Field) (value : String) : Fields :=
  fields.filter (·.1 ≠ name) ++ [(name, value)]

@[simp] theorem get_set (fields : Fields) (name : Field) (value : String) :
    (fields.set name value).get name = value := by
  rw [get, set, List.find?_append, List.find?_eq_none.mpr, Option.none_or, List.find?_cons_of_pos]
  · simp
  · simp

end Fields

/-- A request keeps the identifier of the text that it was given. -/
structure Request where
  url : String
  uri_ : Uri
  parsed : Uri.ofString url = some uri_
  method : Verb
  target : String
  fields : Fields
  body : String
  deriving DecidableEq

namespace Request

/-- The constructor, unless the text throws. -/
def ofUrl (url : String) : Option Request :=
  match h : Uri.ofString url with
  | none => none
  | some uri_ => some ⟨url, uri_, h, .get, "", [], ""⟩

/-- The request with another identifier, unless the text throws. -/
def uri (req : Request) (url : String) : Option Request :=
  match h : Uri.ofString url with
  | none => none
  | some uri_ => some { req with url, uri_, parsed := h }

def remoteHost (req : Request) : Option String :=
  if req.uri_.host_ ≠ "" then some req.uri_.host_ else none

def remotePort (req : Request) : Option String :=
  if req.uri_.port_ > 0 then some (toText req.uri_.port_) else none

def remotePath (req : Request) : Option String :=
  let path := req.uri_.path_ ++ (if req.uri_.query_ ≠ "" then "?" ++ req.uri_.query_ else "") ++
    (if req.uri_.fragment_ ≠ "" then "#" ++ req.uri_.fragment_ else "")
  if path ≠ "" then some path else none

def protocol (req : Request) : Option String :=
  if req.uri_.scheme_ ≠ "" then some req.uri_.scheme_ else none

end Request

/-! ### Options -/

structure Options where
  server_certificate_ : Option String := none
  verify_path_ : Option String := none
  client_certificate_file_ : Option String := none
  client_private_key_file_ : Option String := none
  ciphers_ : Option String := none
  sni_hostname_ : Option String := none
  proxy_hostname_ : Option String := none
  remote_hostname_ : Option String := none
  remote_port_ : Option String := none
  ssl_options_ : ℤ := 0
  timeout_ : ℤ := 0
  always_verify_peer_ : Bool := false
  follow_redirects_ : Bool := false
  keep_alive_ : Bool := false
  ssl_connection_ : Bool := false
  deriving DecidableEq

/-- The operator `==`. -/
def Options.equals (opts ropts : Options) : Bool :=
  opts.server_certificate_ == ropts.server_certificate_ &&
    opts.verify_path_ == ropts.verify_path_ &&
    opts.client_certificate_file_ == ropts.client_certificate_file_ &&
    opts.client_private_key_file_ == ropts.client_private_key_file_ &&
    opts.ciphers_ == ropts.ciphers_ &&
    opts.sni_hostname_ == ropts.sni_hostname_ &&
    opts.ssl_options_ == ropts.ssl_options_ &&
    opts.always_verify_peer_ == ropts.always_verify_peer_ &&
    opts.proxy_hostname_ == ropts.proxy_hostname_ &&
    opts.keep_alive_ == ropts.keep_alive_

/-- The options that are compared, with the others as they are by default. -/
def Options.compared (opts : Options) : Options :=
  { opts with
    remote_hostname_ := none
    remote_port_ := none
    timeout_ := 0
    follow_redirects_ := false
    ssl_connection_ := false }

theorem Options.equals_iff {opts ropts : Options} :
    opts.equals ropts = true ↔ opts.compared = ropts.compared := by
  simp only [equals, compared, Bool.and_eq_true, beq_iff_eq, Options.mk.injEq, true_and, and_true]
  tauto

/-! ### The client -/

/-- A response, and whether the socket is closed with it. -/
structure Response where
  status : ℕ
  location : String
  closes : Bool
  deriving DecidableEq

/-- What a host and a port that are not set read as. -/
structure Indeterminate where
  hostname : String := ""
  port : String := ""
  deriving DecidableEq

/-- What happens in a pass: what is read of what is not set, whether a connection is made, its
handshake succeeds and the request is written to its end, and the response. -/
structure Round where
  indeterminate : Indeterminate := {}
  connects : Bool := true
  handshakes : Bool := true
  writes : Bool := true
  response : Option Response := none
  deriving DecidableEq

/-- An open socket: where it was connected to, what a proxy was asked for, the options that were
in force, and whether it is wrapped in TLS. -/
structure Connection where
  host : String
  port : String
  tunnel : Option String
  options : Options
  tls : Bool
  deriving DecidableEq

/-- A request on the network. -/
structure Written where
  connection : Connection
  tls : Bool
  request : Request
  deriving DecidableEq

structure Client where
  client_options_ : Options := {}
  sock_ : Option Connection := none
  new_client_options_ : Bool := true
  deriving DecidableEq

/-- What the try block comes to. -/
inductive Outcome
  | returned (resp : Response)
  | redirected
  | thrown
  deriving DecidableEq

/-- The host and the port of a text that may have a colon. -/
def splitHost (connect_host port : String) : String × String :=
  match connect_host.toList.dropWhile (· ≠ ':') with
  | ':' :: rest => (String.ofList (connect_host.toList.takeWhile (· ≠ ':')), String.ofList rest)
  | _ => (connect_host, port)

namespace Client

def setOptions (c : Client) (opts : Options) : Client :=
  if !c.client_options_.equals opts then
    { c with client_options_ := opts, new_client_options_ := true }
  else { c with new_client_options_ := false }

def isSocketOpen (c : Client) : Bool := c.sock_.isSome

def closeSocket (c : Client) : Client := { c with sock_ := none }

/-- The connection that is made, before a handshake. -/
def connection (c : Client) (indeterminate : Indeterminate) : Connection :=
  let opts := c.client_options_
  let remote_host := opts.remote_hostname_.getD indeterminate.hostname
  let remote_port := opts.remote_port_.getD indeterminate.port
  match opts.proxy_hostname_ with
  | none =>
      let connected := splitHost remote_host remote_port
      ⟨connected.1, connected.2, none, opts, false⟩
  | some proxy_hostname =>
      let connected := splitHost proxy_hostname kProxyDefaultPort
      ⟨connected.1, connected.2, some (remote_host ++ ":" ++ remote_port), opts, false⟩

/-- Connects, also through a proxy, unless one of the steps throws. -/
def createConnection (c : Client) (round : Round) : Option Client :=
  if round.connects then some { c with sock_ := some (c.connection round.indeterminate) } else none

/-- Wraps the socket in TLS, unless the handshake throws. -/
def encryptConnection (c : Client) (round : Round) : Option Client :=
  if round.handshakes then
    some { c with sock_ := c.sock_.map fun connection => { connection with tls := true } }
  else none

/-- The value of the Host field. -/
def hostHeaderValue (c : Client) (indeterminate : Indeterminate) : String :=
  let host := c.client_options_.remote_hostname_.getD indeterminate.hostname
  let port := c.client_options_.remote_port_.getD indeterminate.port
  if c.client_options_.ssl_connection_ ∧ kHTTPSDefaultPort ≠ port then host ++ ":" ++ port
  else if ¬c.client_options_.ssl_connection_ ∧ kHTTPDefaultPort ≠ port then host ++ ":" ++ port
  else host

/-- The request as it is written. -/
def prepare (c : Client) (indeterminate : Indeterminate) (req : Request) : Request :=
  let req := { req with target := req.remotePath.getD "/" }
  if req.fields.get .host = "" then
    { req with fields := req.fields.set .host (c.hostHeaderValue indeterminate) }
  else req

def redirects : List ℕ := [301, 302, 303, 304, 305, 307, 308]

/-- The switch over the result of the response. -/
def handleResponse (c : Client) (req : Request) (resp : Response) : Request × Outcome :=
  if resp.status ∈ redirects then
    if !c.client_options_.follow_redirects_ then (req, .returned resp)
    else if resp.location = "" then (req, .thrown)
    else
      match req.uri resp.location with
      | none => (req, .thrown)
      | some req => (req, .redirected)
  else (req, .returned resp)

/-- The request is written on the socket and the response is read. -/
def sendRequest (c : Client) (round : Round) (req : Request) :
    Client × Request × Option Written × Outcome :=
  match c.sock_ with
  | none => (c, req, none, .thrown)
  | some connection =>
      let req := c.prepare round.indeterminate req
      let written := some ⟨connection, c.client_options_.ssl_connection_ && connection.tls, req⟩
      match (if round.writes then round.response else none) with
      | none => (c, req, written, .thrown)
      | some resp =>
          let c := if resp.closes then c.closeSocket else c
          let handled := c.handleResponse req resp
          (c, handled.1, written, handled.2)

/-- The connection of a pass, which throws or is there. -/
def connect (c : Client) (round : Round) (create_connection : Bool) : Option Client :=
  if create_connection then
    match c.createConnection round with
    | none => none
    | some c => if c.client_options_.ssl_connection_ then c.encryptConnection round else some c
  else some c

/-- The try block. -/
def attempt (c : Client) (round : Round) (req : Request) (create_connection : Bool) :
    Client × Request × Option Written × Outcome :=
  match c.connect round create_connection with
  | none => (c, req, none, .thrown)
  | some c => c.sendRequest round req

end Client

/-- The port that a request is sent to. -/
def Request.port (req : Request) : String :=
  match req.remotePort with
  | some port => port
  | none => if req.protocol = some "https" then kHTTPSDefaultPort else kHTTPDefaultPort

/-- The request is to be sent in TLS. -/
def Request.sslConnection (req : Request) : Bool := req.protocol = some "https"

namespace Client

/-- The socket is used again for a target. -/
def reuses (c : Client) (indeterminate : Indeterminate) (hostname port : String)
    (ssl_connection : Bool) : Bool :=
  c.isSocketOpen && !c.new_client_options_ &&
    hostname == c.client_options_.remote_hostname_.getD indeterminate.hostname &&
    port == c.client_options_.remote_port_.getD indeterminate.port &&
    c.client_options_.ssl_connection_ == ssl_connection

/-- Looks at the target, unless there is none. The flag says that a connection is to be made. -/
def initHTTPRequest (c : Client) (indeterminate : Indeterminate) (req : Request) :
    Option (Client × Bool) :=
  match req.remoteHost with
  | some hostname =>
      let port := req.port
      let ssl_connection := req.sslConnection
      if c.reuses indeterminate hostname port ssl_connection then some (c, false)
      else
        let client_options_ := { c.client_options_ with
          remote_hostname_ := some hostname
          remote_port_ := some port
          ssl_connection_ := ssl_connection }
        some (⟨client_options_, none, false⟩, true)
  | none =>
      match c.client_options_.remote_hostname_ with
      | none => none
      | some _ =>
          let opts := c.client_options_
          let port := opts.remote_port_.getD
            (if opts.ssl_connection_ then kHTTPSDefaultPort else kHTTPDefaultPort)
          let client_options_ := { opts with remote_port_ := some port }
          some ({ c with client_options_, sock_ := none }, true)

/-- The head of the loop: the target is looked at, except after a failure. -/
def enter (c : Client) (indeterminate : Indeterminate) (req : Request) (retry_connect : Bool) :
    Option (Client × Bool) :=
  if retry_connect then some (c, true) else c.initHTTPRequest indeterminate req

end Client

/-! ### Requests in passes -/

/-- The client is between two calls, the last of which left its request, or in the loop. -/
inductive Phase
  | idle (left : Option Request)
  | sending (req : Request) (retry_connect : Bool)
  deriving DecidableEq

/-- One pass of the loop of `sendHTTPRequest`. -/
def Client.pass (c : Client) (round : Round) (req : Request) (retry_connect : Bool) :
    Client × Phase × Option Written :=
  match c.enter round.indeterminate req retry_connect with
  | none => (c, .idle (some req), none)
  | some (c, create_connection) =>
      let (c, req, written, outcome) := c.attempt round req create_connection
      match outcome with
      | .returned _ => (c, .idle (some req), written)
      | .redirected => (c, .sending req retry_connect, written)
      | .thrown =>
          let phase := if retry_connect then .idle (some req) else .sending req true
          (c.closeSocket, phase, written)

/-- The methods of the client. -/
inductive Call
  | get | head | delete_
  | put (body content_type : String)
  | post (body content_type : String)

namespace Request

/-- A body, and its content type if there is one. -/
def withBody (req : Request) (method : Verb) (body content_type : String) : Request :=
  let fields :=
    if content_type ≠ "" then req.fields.set .contentType content_type else req.fields
  { req with method, body, fields }

/-- What a method of the client does to the request before it is sent. -/
def begin_ (req : Request) : Call → Request
  | .get => { req with method := .get }
  | .head => { req with method := .head }
  | .delete_ => { req with method := .delete_ }
  | .put body content_type => req.withBody .put body content_type
  | .post body content_type => req.withBody .post body content_type

end Request

/-! ### What a pass does -/

namespace Client

/-- A connection is made in the pass, if there is a target. -/
def opens (c : Client) (indeterminate : Indeterminate) (req : Request) (retry_connect : Bool) :
    Bool :=
  match req.remoteHost with
  | none => true
  | some hostname => retry_connect || !c.reuses indeterminate hostname req.port req.sslConnection

/-- The pass is in TLS: so is a request with a host that is looked at, and otherwise the target
that is remembered decides. -/
def secures (c : Client) (req : Request) (retry_connect : Bool) : Bool :=
  if retry_connect || req.remoteHost.isNone then c.client_options_.ssl_connection_
  else req.sslConnection

/-- The pass fails before it writes: there is no target, or no connection. -/
def Silent (c : Client) (round : Round) (req : Request) (retry_connect : Bool) : Prop :=
  (retry_connect = false ∧ req.remoteHost = none ∧ c.client_options_.remote_hostname_ = none) ∨
    c.opens round.indeterminate req retry_connect = true ∧
      (round.connects = false ∨ c.secures req retry_connect = true ∧ round.handshakes = false)

instance (c : Client) (round : Round) (req : Request) (retry_connect : Bool) :
    Decidable (c.Silent round req retry_connect) :=
  inferInstanceAs (Decidable ((_ ∧ _ ∧ _) ∨ _ ∧ (_ ∨ _ ∧ _)))

section Pass

variable {c c' : Client} {indeterminate : Indeterminate} {round : Round} {req : Request}
  {retry_connect create_connection : Bool}

theorem reuses_iff {hostname port : String} {ssl_connection : Bool} :
    c.reuses indeterminate hostname port ssl_connection = true ↔
      c.isSocketOpen = true ∧ c.new_client_options_ = false ∧
        hostname = c.client_options_.remote_hostname_.getD indeterminate.hostname ∧
        port = c.client_options_.remote_port_.getD indeterminate.port ∧
        c.client_options_.ssl_connection_ = ssl_connection := by
  simp [reuses, and_assoc]

theorem enter_eq_none_iff : c.enter indeterminate req retry_connect = none ↔
    retry_connect = false ∧ req.remoteHost = none ∧ c.client_options_.remote_hostname_ = none := by
  cases retry_connect with
  | true => simp [enter]
  | false =>
      rw [enter, if_neg Bool.false_ne_true, initHTTPRequest]
      cases hhost : req.remoteHost with
      | some hostname =>
          dsimp only
          split
          · simp
          · simp
      | none =>
          cases hremembered : c.client_options_.remote_hostname_ with
          | none => simp
          | some hostname => simp

/-- The client that a pass starts from, by whether it is a retry, and by the host. -/
theorem enter_cases (h : c.enter indeterminate req retry_connect = some (c', create_connection)) :
    (retry_connect = true ∧ c' = c ∧ create_connection = true) ∨
    (retry_connect = false ∧ ∃ hostname, req.remoteHost = some hostname ∧
      c.reuses indeterminate hostname req.port req.sslConnection = true ∧ c' = c ∧
        create_connection = false) ∨
    (retry_connect = false ∧ ∃ hostname, req.remoteHost = some hostname ∧
      c.reuses indeterminate hostname req.port req.sslConnection = false ∧
        create_connection = true ∧
        c' = ⟨{ c.client_options_ with
          remote_hostname_ := some hostname
          remote_port_ := some req.port
          ssl_connection_ := req.sslConnection }, none, false⟩) ∨
    (retry_connect = false ∧ req.remoteHost = none ∧ create_connection = true ∧
      ∃ port, c' = { c with
        client_options_ := { c.client_options_ with remote_port_ := some port }
        sock_ := none }) := by
  cases retry_connect with
  | true =>
      rw [enter, if_pos rfl, Option.some.injEq, Prod.mk.injEq] at h
      exact Or.inl ⟨rfl, h.1.symm, h.2.symm⟩
  | false =>
      rw [enter, if_neg Bool.false_ne_true, initHTTPRequest] at h
      refine Or.inr ?_
      cases hhost : req.remoteHost with
      | some hostname =>
          rw [hhost] at h
          dsimp only at h
          split at h
          · rename_i hreuses
            rw [Option.some.injEq, Prod.mk.injEq] at h
            exact Or.inl ⟨rfl, hostname, rfl, hreuses, h.1.symm, h.2.symm⟩
          · rename_i hreuses
            rw [Option.some.injEq, Prod.mk.injEq] at h
            exact Or.inr (Or.inl ⟨rfl, hostname, rfl, Bool.eq_false_of_not_eq_true hreuses,
              h.2.symm, h.1.symm⟩)
      | none =>
          rw [hhost] at h
          dsimp only at h
          cases hremembered : c.client_options_.remote_hostname_ with
          | none =>
              rw [hremembered] at h
              cases h
          | some hostname =>
              rw [hremembered, Option.some.injEq, Prod.mk.injEq] at h
              exact Or.inr (Or.inr ⟨rfl, rfl, h.2.symm, _, hremembered ▸ h.1.symm⟩)

theorem create_connection_eq (h : c.enter indeterminate req retry_connect =
    some (c', create_connection)) :
    create_connection = c.opens indeterminate req retry_connect := by
  rw [opens]
  obtain ⟨rfl, -, rfl⟩ | ⟨rfl, hostname, hhost, hreuses, -, rfl⟩ |
    ⟨rfl, hostname, hhost, hreuses, rfl, -⟩ | ⟨rfl, hhost, rfl, -⟩ := enter_cases h
  · cases req.remoteHost with
    | none => rfl
    | some hostname => rfl
  · simp [hhost, hreuses]
  · simp [hhost, hreuses]
  · simp [hhost]

theorem ssl_connection_enter (h : c.enter indeterminate req retry_connect =
    some (c', create_connection)) :
    c'.client_options_.ssl_connection_ = c.secures req retry_connect := by
  rw [secures]
  obtain ⟨rfl, rfl, -⟩ | ⟨rfl, hostname, hhost, hreuses, rfl, -⟩ |
    ⟨rfl, hostname, hhost, -, -, rfl⟩ | ⟨rfl, hhost, -, port, rfl⟩ := enter_cases h
  · rfl
  · simpa [hhost] using (reuses_iff.mp hreuses).2.2.2.2
  · simp [hhost]
  · simp [hhost]

/-- An open socket is kept, or one is opened for what the client is to connect to. -/
theorem connect_eq_some_iff : c.connect round create_connection = some c' ↔
    (create_connection = false ∧ c' = c) ∨
      create_connection = true ∧ round.connects = true ∧
        (c.client_options_.ssl_connection_ = true → round.handshakes = true) ∧
        c' = { c with sock_ := some { c.connection round.indeterminate with
          tls := c.client_options_.ssl_connection_ } } := by
  cases create_connection with
  | false =>
      rw [connect, if_neg Bool.false_ne_true, Option.some.injEq]
      simp only [Bool.false_eq_true, false_and, or_false, true_and]
      exact eq_comm
  | true =>
      simp only [connect, createConnection, encryptConnection]
      cases round.connects with
      | false => simp
      | true =>
          cases hssl : c.client_options_.ssl_connection_ with
          | false =>
              have hplain : (c.connection round.indeterminate).tls = false := by
                rw [connection]
                split <;> rfl
              have hkept : { c.connection round.indeterminate with tls := false } =
                  c.connection round.indeterminate := by rw [← hplain]
              simp only [hssl, hkept, if_true, Bool.false_eq_true, if_false, Option.some.injEq,
                false_and, false_or, true_and, false_implies, reduceCtorEq]
              exact eq_comm
          | true =>
              cases round.handshakes with
              | false => simp [hssl]
              | true =>
                  simp only [hssl, if_true, Option.map_some, Option.some.injEq, reduceCtorEq,
                    false_and, false_or, true_and, true_implies]
                  exact eq_comm

theorem connect_eq_none_iff : c.connect round create_connection = none ↔
    create_connection = true ∧ (round.connects = false ∨
      c.client_options_.ssl_connection_ = true ∧ round.handshakes = false) := by
  cases create_connection with
  | false => simp [connect]
  | true =>
      simp only [connect, createConnection, encryptConnection]
      cases round.connects <;> cases hssl : c.client_options_.ssl_connection_ <;>
        cases round.handshakes <;> simp [hssl]

theorem ssl_connection_connect (h : c.connect round create_connection = some c') :
    c'.client_options_.ssl_connection_ = c.client_options_.ssl_connection_ := by
  obtain ⟨-, rfl⟩ | ⟨-, -, -, rfl⟩ := connect_eq_some_iff.mp h
  · rfl
  · rfl

/-- A pass that comes to the writing has an open socket: the one that it uses again, or a new
one. -/
theorem exists_sock_of_connect {c₁ c₂ : Client}
    (henter : c.enter indeterminate req retry_connect = some (c₁, create_connection))
    (hconnect : c₁.connect round create_connection = some c₂) :
    ∃ connection, c₂.sock_ = some connection := by
  obtain ⟨hkept, rfl⟩ | ⟨-, -, -, rfl⟩ := connect_eq_some_iff.mp hconnect
  · obtain ⟨-, -, hcreate⟩ | ⟨-, hostname, -, hreuses, rfl, -⟩ |
      ⟨-, hostname, -, -, hcreate, -⟩ | ⟨-, -, hcreate, -⟩ := enter_cases henter
    · exact absurd (hkept.symm.trans hcreate) Bool.false_ne_true
    · exact Option.isSome_iff_exists.mp (reuses_iff.mp hreuses).1
    · exact absurd (hkept.symm.trans hcreate) Bool.false_ne_true
    · exact absurd (hkept.symm.trans hcreate) Bool.false_ne_true
  · exact ⟨_, rfl⟩

theorem sendRequest_of_open (round : Round) (req : Request) {connection : Connection}
    (hopen : c.sock_ = some connection) :
    (c.sendRequest round req).2.2.1 =
        some ⟨connection, c.client_options_.ssl_connection_ && connection.tls,
          c.prepare round.indeterminate req⟩ ∧
      ((c.sendRequest round req).1 = c ∨ (c.sendRequest round req).1 = c.closeSocket) := by
  rw [sendRequest, hopen]
  dsimp only
  split
  · exact ⟨rfl, Or.inl rfl⟩
  · rename_i resp _
    refine ⟨rfl, ?_⟩
    cases resp.closes with
    | true => exact Or.inr rfl
    | false => exact Or.inl rfl

/-- A silent pass writes nothing, and changes at most what the client is to connect to. -/
theorem pass_of_silent (h : c.Silent round req retry_connect) :
    (c.pass round req retry_connect).2.2 = none ∧
      ((c.pass round req retry_connect).1 = c ∨ ∃ c₁ create_connection,
        c.enter round.indeterminate req retry_connect = some (c₁, create_connection) ∧
          (c.pass round req retry_connect).1 = c₁.closeSocket) := by
  rw [pass]
  cases henter : c.enter round.indeterminate req retry_connect with
  | none => exact ⟨rfl, Or.inl rfl⟩
  | some entered =>
      obtain ⟨c₁, create_connection⟩ := entered
      have hconnect : c₁.connect round create_connection = none := by
        rw [connect_eq_none_iff, create_connection_eq henter, ssl_connection_enter henter]
        refine h.resolve_left fun hmissing => ?_
        rw [enter_eq_none_iff.mpr hmissing] at henter
        cases henter
      refine ⟨?_, Or.inr ⟨c₁, create_connection, rfl, ?_⟩⟩
      · simp only [attempt, hconnect]
      · simp only [attempt, hconnect]

/-- A pass that is not silent writes the request on the socket that it comes to. -/
theorem pass_of_not_silent (h : ¬c.Silent round req retry_connect) :
    ∃ c₁ c₂ connection,
      c.enter round.indeterminate req retry_connect =
          some (c₁, c.opens round.indeterminate req retry_connect) ∧
        c₁.connect round (c.opens round.indeterminate req retry_connect) = some c₂ ∧
        c₂.sock_ = some connection ∧
        (c.pass round req retry_connect).2.2 = some ⟨connection,
          c.secures req retry_connect && connection.tls, c₂.prepare round.indeterminate req⟩ ∧
        ((c.pass round req retry_connect).1 = c₂ ∨
          (c.pass round req retry_connect).1 = c₂.closeSocket) := by
  obtain ⟨hmissing, hfails⟩ := not_or.mp h
  have hentered : c.enter round.indeterminate req retry_connect ≠ none :=
    fun hnone => hmissing (enter_eq_none_iff.mp hnone)
  obtain ⟨⟨c₁, create_connection⟩, henter⟩ := Option.ne_none_iff_exists'.mp hentered
  have hopens := create_connection_eq henter
  have hsecures := ssl_connection_enter henter
  subst hopens
  rw [← hsecures, ← connect_eq_none_iff] at hfails
  obtain ⟨c₂, hconnect⟩ := Option.ne_none_iff_exists'.mp hfails
  obtain ⟨connection, hopen⟩ := exists_sock_of_connect henter hconnect
  have hssl := ssl_connection_connect hconnect
  obtain ⟨hwritten, hclient⟩ := sendRequest_of_open round req hopen
  refine ⟨c₁, c₂, connection, henter, hconnect, hopen, ?_, ?_⟩
  · rw [← hsecures, ← hssl, ← hwritten, pass, henter]
    simp only [attempt, hconnect]
    split
    · rfl
    · rfl
    · rfl
  · rw [pass, henter]
    simp only [attempt, hconnect]
    split
    · exact hclient
    · exact hclient
    · refine Or.inr ?_
      obtain hclient | hclient := hclient
      · rw [hclient]
      · rw [hclient]
        rfl

end Pass

end Client

end Osquery.Remote
