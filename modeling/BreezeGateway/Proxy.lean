import BreezeGateway.Effects.Substitution
import BreezeGateway.Http.Message

/-!
# The proxy

`src/proxy.rs`.  A proxy prepares a request, gives it to its HTTP client and filters the response.
An `expect` or an index that fails is a `Panic`; a program that panics performs an operation
without answers.
-/

namespace BreezeGateway

open Effects

structure Panic where
  message : String

def expect {α : Type} (o : Option α) (message : String) : Except Panic α :=
  match o with
  | some a => .ok a
  | none => .error ⟨message⟩

/-- How the gateway asks a provider. -/
inductive ProviderCall where
  | tryAcquire (scope : String)
  | tryAcquireRequest (scope path : String)
deriving DecidableEq

inductive HttpOp (P : Type) where
  | panic (message : String)
  /-- The call of a provider under `tokio::time::timeout`. -/
  | acquire (provider : P) (call : ProviderCall) (timeoutMs : ℕ)
  /-- `self.client.request(request)`. -/
  | request (request : Request GatewayBody)
  /-- The tunnel between two upgraded connections. -/
  | relay (tasks : Option UpgradeTasks) (downstream upstream : OnUpgrade)

/-- What a handler awaits; no answer to `acquire` is a timeout. -/
abbrev httpSig (P : Type) : Sig where
  Op := HttpOp P
  Ans
    | .panic _ => Empty
    | .acquire .. => Option (Except AdmissionError AcquireOutcome)
    | .request _ => Except ClientError ClientResponse
    | .relay .. => Unit

/-- Parsing by `http::Uri`. -/
structure UriLibrary where
  parsePathAndQuery : String → Except String PathAndQuery

/-- `Uri::builder()` with its three parts. -/
def UriLibrary.build (lib : UriLibrary) (scheme authority pathAndQuery : String) :
    Except String Uri :=
  match lib.parsePathAndQuery pathAndQuery with
  | .ok p => .ok ⟨some scheme, some authority, p⟩
  | .error e => .error e

/-- What is parsed from the text of a path and query has that text. -/
def UriLibrary.Reprints (lib : UriLibrary) : Prop :=
  ∀ p q : PathAndQuery, lib.parsePathAndQuery p.asStr = .ok q → q.asStr = p.asStr

/-- The address of a client; only the text of its IP address is used. -/
structure SocketAddr where
  ip : String

/-! ## Header names and texts -/

def connection : HeaderName := .fromStatic "connection"

def host : HeaderName := .fromStatic "host"

def upgradeHeader : HeaderName := .fromStatic "upgrade"

def contentType : HeaderName := .fromStatic "content-type"

def xForwardedFor : HeaderName := .fromStatic "x-forwarded-for"

def xForwardedHost : HeaderName := .fromStatic "x-forwarded-host"

def xForwardedProto : HeaderName := .fromStatic "x-forwarded-proto"

def errorResponse (status : ℕ) (message : String) : Response where
  status := status
  version := .http11
  headers := HeaderMap.empty.append contentType (.fromStatic "text/plain; charset=utf-8")
  extensions := ⟨none, none⟩
  body := .full (utf8 message)

def upstreamUnavailable : Response := errorResponse statusBadGateway "fallback upstream unavailable"

/-! ## Hop-by-hop headers -/

def isBlank (b : UInt8) : Bool := b == 32 || b == 9

def trimAscii (bytes : Bytes) : Bytes :=
  ((bytes.dropWhile isBlank).reverse.dropWhile isBlank).reverse

def eqIgnoreAsciiCase (a b : Bytes) : Bool := a.map lowerByte == b.map lowerByte

/-- `value.split(|byte| *byte == b',')`. -/
def members (value : Bytes) : List Bytes := value.splitOn 44

def containsToken (value expected : Bytes) : Bool :=
  (members value).any fun token => eqIgnoreAsciiCase (trimAscii token) expected

def isUpgrade (headers : HeaderMap) : Bool :=
  headers.containsKey upgradeHeader &&
    (headers.getAll connection).any fun value => containsToken value.bytes (utf8 "upgrade")

/-- The names that the members of `Connection` nominate. -/
def nominated (headers : HeaderMap) : List HeaderName :=
  ((headers.getAll connection).flatMap fun value => members value.bytes).filterMap fun name =>
    HeaderName.fromBytes (trimAscii name)

/-- The names that are removed from every message. -/
def hopByHopNames : List HeaderName :=
  [.fromStatic "keep-alive", .fromStatic "proxy-authenticate", .fromStatic "proxy-authorization",
    .fromStatic "te", .fromStatic "trailer", .fromStatic "transfer-encoding"]

def removeHopByHopHeaders (headers : HeaderMap) (preserveUpgrade : Bool) : HeaderMap :=
  let headers := (nominated headers).foldl (fun headers name =>
    if !preserveUpgrade || name != upgradeHeader then headers.remove name else headers) headers
  let headers := hopByHopNames.foldl HeaderMap.remove headers
  if !preserveUpgrade then (headers.remove connection).remove upgradeHeader else headers

def appendForwardedFor (headers : HeaderMap) (address : String) : HeaderMap :=
  match headers.get xForwardedFor with
  | some existing =>
      match existing.toStr with
      | none =>
          let headers := headers.remove xForwardedFor
          match HeaderValue.fromStr address with
          | some value => headers.insert xForwardedFor value
          | none => headers
      | some existing =>
          match HeaderValue.fromStr (existing ++ ", " ++ address) with
          | some value => headers.insert xForwardedFor value
          | none => headers
  | none =>
      match HeaderValue.fromStr address with
      | some value => headers.insert xForwardedFor value
      | none => headers

/-! ## `FallbackProxy` -/

inductive ProxyConfigError where
  | missingScheme
  | missingAuthority
  | unsupportedScheme (scheme : String)
  | unexpectedPath
deriving DecidableEq

inductive ConnectFailure where
  | connectFailure

namespace FallbackProxy

def fromAdmission : FallbackProxy := ⟨"http", none⟩

def new (upstream : Uri) : Except ProxyConfigError FallbackProxy :=
  match upstream.scheme with
  | none => .error .missingScheme
  | some scheme =>
      if scheme ≠ "http" then .error (.unsupportedScheme scheme)
      else
        match upstream.authority with
        | none => .error .missingAuthority
        | some authority =>
            if upstream.path ≠ "/" ∨ upstream.query.isSome then .error .unexpectedPath
            else .ok ⟨scheme, some authority⟩

variable {B : Type} (lib : UriLibrary) (self : FallbackProxy)

def ticketAuthority (request : Request B) : Option String :=
  (request.extensions.ticket.bind AdmissionTicket.origin).bind Uri.authority

/-- What `prepare_request` does to the headers before it attaches the ticket. -/
def prepareHeaders (headers : HeaderMap) (peer : SocketAddr) (upgrade : Bool) : HeaderMap :=
  let originalHost := headers.get host
  let headers := removeHopByHopHeaders headers upgrade
  let headers := appendForwardedFor headers peer.ip
  let headers := headers.entryOrInsert xForwardedProto (.fromStatic "http")
  match originalHost with
  | some host => headers.entryOrInsert xForwardedHost host
  | none => headers

def prepareRequest (request : Request B) (peer : SocketAddr) (upgrade : Bool) :
    Except Panic (Except String (Request B)) := do
  let pathAndQuery := (request.uri.pathAndQuery.map PathAndQuery.asStr).getD "/"
  let authority ← expect ((ticketAuthority request).or self.authority)
    "an origin is required before preparing the request"
  match lib.build self.scheme authority pathAndQuery with
  | .error e => pure (.error e)
  | .ok uri =>
      let request := { request with
        uri := uri, headers := prepareHeaders request.headers peer upgrade }
      match request.extensions.ticket with
      | some ticket => pure (.ok (ticket.attach request))
      | none => pure (.ok request)

end FallbackProxy

section

variable {P α : Type}

def orPanic (x : Except Panic α) : Prog (httpSig P) α :=
  match x with
  | .ok a => .ret a
  | .error p => .op (.panic p.message) nofun

namespace FallbackProxy

/-- The result of an attempt, and the downstream upgrade that it leaves. -/
abbrev Attempt := Except ConnectFailure Response × Option OnUpgrade

def tryForwardBody (lib : UriLibrary) (self : FallbackProxy) (request : Request GatewayBody)
    (peer : SocketAddr) (downstream : Option OnUpgrade) : Prog (httpSig P) Attempt :=
  if self.authority = none ∧ request.extensions.ticket.bind AdmissionTicket.origin = none then
    .ret (.ok (errorResponse statusServiceUnavailable "recorder origin is missing"), downstream)
  else do
    let upgrade := isUpgrade request.headers
    match ← orPanic (self.prepareRequest lib request peer upgrade) with
    | .error e => .ret (.ok (errorResponse statusBadGateway e), downstream)
    | .ok request =>
        let upgrades := request.extensions.tasks
        let request := { request with extensions := { request.extensions with tasks := none } }
        match (← Prog.perform (S := httpSig P) (.request request) :
            Except ClientError ClientResponse) with
        | .error e =>
            if e.isConnect then .ret (.error .connectFailure, downstream)
            else .ret (.ok upstreamUnavailable, downstream)
        | .ok client =>
            let response := client.response
            if response.status = statusSwitchingProtocols then
              match downstream with
              | some downstream =>
                  let (upstream, response) := response.takeUpgrade
                  let _ ← Prog.perform (S := httpSig P) (.relay upgrades downstream upstream)
                  .ret (.ok response, none)
              | none => .ret (.ok response, none)
            else
              .ret (.ok { response with headers := removeHopByHopHeaders response.headers false },
                downstream)

end FallbackProxy

end

/-! ## Attempts -/

structure AttemptOp where
  proxy : FallbackProxy
  request : Request GatewayBody
  peer : SocketAddr
  downstream : Option OnUpgrade

abbrev attemptSig : Sig where
  Op := AttemptOp
  Ans _ := FallbackProxy.Attempt

def attempt {P : Type} (lib : UriLibrary) (o : attemptSig.Op) :
    Prog (httpSig P) (attemptSig.Ans o) :=
  o.proxy.tryForwardBody lib o.request o.peer o.downstream

namespace FallbackProxy

variable (self : FallbackProxy)

/-- `unwrap_or_else(|_| upstream_unavailable())`. -/
def orUnavailable : Except ConnectFailure Response → Response
  | .ok response => response
  | .error _ => upstreamUnavailable

def forwardBody (request : Request GatewayBody) (peer : SocketAddr) : Prog attemptSig Response :=
  let (downstream, request) :=
    if isUpgrade request.headers then
      let (downstream, request) := request.takeUpgrade
      (some downstream, request)
    else (none, request)
  (fun r => orUnavailable r.1) <$> Prog.perform (S := attemptSig) ⟨self, request, peer, downstream⟩

def forward (request : Request Incoming) (peer : SocketAddr) : Prog attemptSig Response :=
  self.forwardBody (request.mapBody .incoming) peer

end FallbackProxy

end BreezeGateway
